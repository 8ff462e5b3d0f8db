import Deltacat.Experimental.Rivulet.BlockGroups
import Mathlib.Data.Prod.Lex

/-!
# The zipper scan

The block groups are scanned in the order of their keys. All files of a group are
read together: a heap has the next record of each of them, the records with the
least key are taken from it and merged, and the records that follow in their
files are put on the heap. Files stay open from one group to the next, and a
record is put on the heap only when its group is scanned.

Of the records with one key, the one with the lowest level and then the newest
stream position is kept for each field group.

A reader closes the stream of its file as soon as it has the first batch. It cannot
read what is not in memory then: a reader of a Feather file takes the error for the
end of the file, one of a Parquet file raises it.

The scan returns the merged table of all files, provided that each of them has
more than one key, that no reader raises, and that no record counts which a reader
does not get to (`scan_isMergedTable_iff`).
-/

namespace Deltacat.Experimental.Rivulet

open Deltacat.Library

universe u

variable {Key Data Schema : Type u}

/--
The record batches of a data file. Of a Parquet file, the iterator of its batches has some
in memory, and would have to read the others.
-/
inductive DataFile (Key Data : Type u)
  | feather (batches : List (List (Key × Data)))
  | parquet (inMemory others : List (List (Key × Data)))

namespace DataFile

def batches : DataFile Key Data → List (List (Key × Data))
  | feather batches => batches
  | parquet inMemory others => inMemory ++ others

/-- The records that a reader can read when it has closed the stream. -/
def loaded : DataFile Key Data → List (Key × Data)
  | feather batches => batches.head?.getD []
  | parquet inMemory _ => inMemory.flatten

/-- The other records. -/
def unloaded : DataFile Key Data → List (Key × Data)
  | feather batches => batches.tail.flatten
  | parquet _ others => others.flatten

/--
Whether a reader raises at the end of what is loaded. That a batch cannot be read is a
`ValueError`, as it is that there is no further batch of a Feather file.
-/
def raisesAtEnd : DataFile Key Data → Bool
  | feather _ => false
  | parquet _ others => !others.isEmpty

theorem loaded_append_unloaded (file : DataFile Key Data) :
    file.loaded ++ file.unloaded = file.batches.flatten := by
  cases file with
  | feather batches => cases batches <;> simp [loaded, unloaded, batches]
  | parquet inMemory others => simp [loaded, unloaded, batches]

theorem mem_batches_iff {file : DataFile Key Data} {record : Key × Data} :
    record ∈ file.batches.flatten ↔ record ∈ file.loaded ∨ record ∈ file.unloaded := by
  rw [← loaded_append_unloaded, List.mem_append]

end DataFile

theorem forall₂_trans {Element : Type u} {related : Element → Element → Prop}
    (trans : ∀ first second third, related first second → related second third →
      related first third) {firsts seconds thirds : List Element}
    (first : List.Forall₂ related firsts seconds) (second : List.Forall₂ related seconds thirds) :
    List.Forall₂ related firsts thirds := by
  induction first generalizing thirds with
  | nil =>
      cases second
      exact List.Forall₂.nil
  | cons isRelated _ ih =>
      rcases second with _ | ⟨isNext, areNext⟩
      exact List.Forall₂.cons (trans _ _ _ isRelated isNext) (ih areNext)

/-- Changing one element relates the lists, if every element is related to itself. -/
theorem forall₂_set {Element : Type u} {related : Element → Element → Prop}
    (refl : ∀ element, related element element) {elements : List Element} {index : ℕ}
    {element changed : Element} (isElement : elements[index]? = some element)
    (isRelated : related element changed) :
    List.Forall₂ related elements (elements.set index changed) := by
  induction elements generalizing index with
  | nil => cases isElement
  | cons head tail ih =>
      cases index with
      | zero =>
          cases isElement
          exact List.Forall₂.cons isRelated (List.forall₂_same.mpr fun element _ => refl element)
      | succ index => exact List.Forall₂.cons (refl head) (ih isElement)

/-- A reader of a file, which has not returned the `remaining` records yet. -/
structure FileReader (Key Data Schema : Type u) where
  block : Block Key Schema
  remaining : List (Key × Data)
  raisesAtEnd : Bool

/-- A record on the heap, with the number of the reader that returned it. -/
structure ZipperMergeHeapRecord (Key Data Schema : Type u) where
  key : Key
  data : Data
  reader : ℕ
  block : Block Key Schema

/-- The open readers, in the order in which they were opened, and the heap. -/
structure ScanState (Key Data Schema : Type u) where
  openFileReaders : List (FileReader Key Data Schema)
  recordHeap : List (ZipperMergeHeapRecord Key Data Schema)

variable [LinearOrder Key] [DecidableEq Schema]

/-- The precedence of records with one key and field group. -/
def sortCriteria (record : ZipperMergeHeapRecord Key Data Schema) : ℤ ×ₗ ℤ :=
  toLex (-record.block.context.level, record.block.context.streamPosition)

def dedupeRecords (records : List (ZipperMergeHeapRecord Key Data Schema)) :
    List (ZipperMergeHeapRecord Key Data Schema) :=
  let groupedBySortGroup := groupInto (fun record => record.block.context.schema) records
  let deduped := groupedBySortGroup.filterMap fun group => greatestBy sortCriteria group.2
  deduped.insertionSort fun left right => sortCriteria left ≤ sortCriteria right

section Scan

variable (query : QueryExpression Key) (group : BlockGroup Key Schema)

/-- The key is below the range of the block group or of the query. -/
def isBelow (key : Key) : Bool :=
  group.keyBelowRange key || query.belowQueryRange key

/--
Records below the range are thrown out; the next record is returned only if it is
in the range of the block group and of the query.
-/
def FileReader.advance (reader : FileReader Key Data Schema) :
    Except Error (Option (Key × Data) × FileReader Key Data Schema) :=
  match reader.remaining.dropWhile fun row => isBelow query group row.1 with
  | [] =>
      if reader.raisesAtEnd then .error .valueError
      else .ok (none, { reader with remaining := [] })
  | next :: rest =>
      if query.matchesQuery next.1 && group.keyInRange next.1 then
        .ok (some next, { reader with remaining := rest })
      else .ok (none, { reader with remaining := next :: rest })

def pushNextRowBackToHeap (state : ScanState Key Data Schema) (index : ℕ) :
    Except Error (ScanState Key Data Schema) :=
  match state.openFileReaders[index]? with
  | none => .ok state
  | some reader => do
      let (next, reader) ← reader.advance query group
      return {
        openFileReaders := state.openFileReaders.set index reader
        recordHeap := state.recordHeap ++
          next.toList.map fun row => ⟨row.1, row.2, index, reader.block⟩ }

/-- The records of one key are taken from the heap, and those that follow are put on it. -/
def popEqual (currPk : Key) :
    ℕ → ScanState Key Data Schema → List (ZipperMergeHeapRecord Key Data Schema) →
      Except Error (List (ZipperMergeHeapRecord Key Data Schema) × ScanState Key Data Schema)
  | 0, state, mergedByPk => .ok (mergedByPk, state)
  | fuel + 1, state, mergedByPk =>
      match popLeast (·.key) state.recordHeap with
      | none => .ok (mergedByPk, state)
      | some (record, rest) =>
          if record.key = currPk then do
            let pushed ←
              pushNextRowBackToHeap query group { state with recordHeap := rest } record.reader
            popEqual currPk fuel pushed (mergedByPk ++ [record])
          else .ok (mergedByPk, state)

/-- The number of records that are on the heap or in open files. -/
def ScanState.size (state : ScanState Key Data Schema) : ℕ :=
  state.recordHeap.length + (state.openFileReaders.map (·.remaining.length)).sum

/-- `__zipper_merge_sorted_records`; every pass takes a record, so that `fuel` suffices. -/
def zipperMergeSortedRecords :
    ℕ → ScanState Key Data Schema →
      Except Error (List (List (ZipperMergeHeapRecord Key Data Schema)) ×
        ScanState Key Data Schema)
  | 0, state => .ok ([], state)
  | fuel + 1, state =>
      match popLeast (·.key) state.recordHeap with
      | none => .ok ([], state)
      | some (record, rest) =>
          let popped := { state with recordHeap := rest }
          if ¬query.matchesQuery record.key then zipperMergeSortedRecords fuel popped
          else if ¬group.keyInRange record.key then .error .runtimeError
          else do
            let pushed ← pushNextRowBackToHeap query group popped record.reader
            let (merged, state) ← popEqual query group record.key pushed.size pushed [record]
            let (others, state) ← zipperMergeSortedRecords fuel state
            return (merged :: others, state)

end Scan

section Files

variable (file : SSTableRow Key → DataFile Key Data)

/-- Blocks that are open already stay where they are. -/
def openReaders (readers : List (FileReader Key Data Schema)) (blocks : List (Block Key Schema)) :
    List (FileReader Key Data Schema) :=
  blocks.foldl (fun readers block =>
    if readers.any (·.block.row = block.row) then readers
    else readers ++ [⟨block, (file block.row).loaded, (file block.row).raisesAtEnd⟩]) readers

/-- The scan of one block group; `iterate` is the order in which a set is iterated. -/
def scanGroup (iterate : List (Block Key Schema) → List (Block Key Schema))
    (query : QueryExpression Key) (readers : List (FileReader Key Data Schema))
    (group : BlockGroup Key Schema) :
    Except Error (List (List (ZipperMergeHeapRecord Key Data Schema)) ×
      List (FileReader Key Data Schema)) := do
  let opened := openReaders file readers (iterate group.blocks.dedup)
  let seeded ← (List.range opened.length).foldlM (pushNextRowBackToHeap query group) ⟨opened, []⟩
  let (zipperMerged, state) ← zipperMergeSortedRecords query group seeded.size seeded
  return (zipperMerged.map dedupeRecords, state.openFileReaders)

/-- `scan` of the block groups, with the readers that are open already. -/
def scanGroups (iterate : List (Block Key Schema) → List (Block Key Schema))
    (query : QueryExpression Key) :
    List (FileReader Key Data Schema) → List (BlockGroup Key Schema) →
      Except Error (List (List (ZipperMergeHeapRecord Key Data Schema)))
  | _, [] => .ok []
  | readers, group :: groups => do
      let (records, readers) ← scanGroup file iterate query readers group
      let others ← scanGroups iterate query readers groups
      return records ++ others

/-- The tree is built, grouped with the bounds of the query, and scanned. -/
def scan (trees : IntervalTrees Key (Block Key Schema))
    (iterate : List (Block Key Schema) → List (Block Key Schema)) (query : QueryExpression Key)
    (manifests : List (List (SSTableRow Key) × DeltaContext Schema)) :
    Except Error (List (List (ZipperMergeHeapRecord Key Data Schema))) := do
  let index ← BlockIntervalTree.addAllRows trees manifests
  let groups ← index.getSortedBlockGroups query.minKey query.maxKey
  scanGroups file iterate query [] groups.blockGroups

end Files

/-- A record of a file of a block. -/
structure Source (Key Data Schema : Type u) where
  key : Key
  data : Data
  block : Block Key Schema

omit [LinearOrder Key] [DecidableEq Schema] in
/-- Where a record on the heap comes from. -/
def ZipperMergeHeapRecord.source (record : ZipperMergeHeapRecord Key Data Schema) :
    Source Key Data Schema :=
  ⟨record.key, record.data, record.block⟩

section Invariant

variable {query : QueryExpression Key} {group : BlockGroup Key Schema}
  {state next : ScanState Key Data Schema} {index : ℕ}

/-- The key is to be returned with the block group. -/
def Eligible (query : QueryExpression Key) (group : BlockGroup Key Schema) (key : Key) : Prop :=
  query.matchesQuery key ∧ group.keyInRange key

/-- The key is not to be returned before later block groups. -/
def Later (query : QueryExpression Key) (group : BlockGroup Key Schema) (key : Key) : Prop :=
  ¬isBelow query group key ∧ ¬Eligible query group key

omit [DecidableEq Schema] in
theorem Eligible.not_below {key : Key} (eligible : Eligible query group key) :
    ¬isBelow query group key := by
  obtain ⟨isMatch, inRange⟩ := eligible
  have lowerLe := (BlockGroup.keyInRange_iff.mp inRange).1
  have notBelow : group.keyBelowRange key = false := by
    simpa [BlockGroup.keyBelowRange] using lowerLe
  have notBelowQuery := QueryExpression.belowQueryRange_of_matchesQuery isMatch
  simp [isBelow, notBelow, notBelowQuery]

omit [DecidableEq Schema] in
/-- Nothing after a key beyond the range is in the range. -/
theorem Later.not_eligible {key after : Key} (later : Later query group key)
    (less : key < after) : ¬Eligible query group after := by
  rintro ⟨isMatch, inRange⟩
  obtain ⟨notBelow, notEligible⟩ := later
  simp only [isBelow, Bool.or_eq_true, not_or, Bool.not_eq_true] at notBelow
  apply notEligible
  constructor
  · rcases query with ⟨_ | ⟨minKey, maxKey⟩, ascending⟩
    · rfl
    · have bounds := of_decide_eq_true isMatch
      have above := of_decide_eq_false notBelow.2
      exact decide_eq_true ⟨not_lt.mp above, less.le.trans bounds.2⟩
  · have bounds := (BlockGroup.keyInRange_iff.mp inRange).2
    have above := of_decide_eq_false notBelow.1
    apply BlockGroup.keyInRange_iff.mpr
    refine ⟨not_lt.mp above, Or.inl ?_⟩
    rcases bounds with below | ⟨-, rfl⟩
    · exact less.trans below
    · exact less

omit [DecidableEq Schema] in
theorem not_isBelow_of_lt {key after : Key} (less : key < after)
    (notBelow : ¬isBelow query group key) : ¬isBelow query group after := by
  simp only [isBelow, Bool.or_eq_true, not_or, Bool.not_eq_true, BlockGroup.keyBelowRange,
    decide_eq_false_iff_not, not_lt] at notBelow ⊢
  refine ⟨notBelow.1.trans less.le, ?_⟩
  rcases query with ⟨_ | ⟨minKey, maxKey⟩, ascending⟩
  · rfl
  · have aboveMin := of_decide_eq_false notBelow.2
    exact decide_eq_false (not_lt.mpr ((not_lt.mp aboveMin).trans less.le))

/-- What `advance` does to a reader of a sorted file. -/
structure FileReader.Advances (query : QueryExpression Key) (group : BlockGroup Key Schema)
    (before : FileReader Key Data Schema) (result : Option (Key × Data))
    (after : FileReader Key Data Schema) : Prop where
  block : after.block = before.block
  suffix : after.remaining <:+ before.remaining
  length : result.toList.length + after.remaining.length ≤ before.remaining.length
  eligible : ∀ row ∈ before.remaining, Eligible query group row.1 →
    result = some row ∨ row ∈ after.remaining
  returned : ∀ row ∈ result, Eligible query group row.1 ∧ row ∈ before.remaining ∧
    ∀ other ∈ after.remaining, row.1 < other.1
  exhausted : result = none → ∀ row ∈ after.remaining, ¬Eligible query group row.1
  later : ∀ row ∈ before.remaining, Later query group row.1 → row ∈ after.remaining
  notBelow : ∀ row ∈ after.remaining, ¬isBelow query group row.1
  raisesAtEnd : after.raisesAtEnd = before.raisesAtEnd
  unfinished : before.raisesAtEnd → result = none → after.remaining ≠ []

omit [DecidableEq Schema] in
theorem FileReader.advance_spec (query : QueryExpression Key) (group : BlockGroup Key Schema)
    {reader : FileReader Key Data Schema}
    (sorted : reader.remaining.Pairwise fun left right => left.1 < right.1) :
    Yields (reader.raisesAtEnd ∧ ∀ row ∈ reader.remaining, ¬Later query group row.1)
      (fun advanced => FileReader.Advances query group reader advanced.1 advanced.2)
      (reader.advance query group) := by
  have kept : ∀ row ∈ reader.remaining, ¬isBelow query group row.1 →
      row ∈ reader.remaining.dropWhile fun row => isBelow query group row.1 := by
    intro row rowMem notBelow
    rw [← List.takeWhile_append_dropWhile (p := fun row => isBelow query group row.1)
      (l := reader.remaining), List.mem_append] at rowMem
    apply rowMem.resolve_left
    intro taken
    have below := List.mem_takeWhile_imp taken
    exact notBelow below
  have isSuffix := List.dropWhile_suffix (l := reader.remaining) fun row : Key × Data =>
    isBelow query group row.1
  have isHead := List.head?_dropWhile_not (fun row : Key × Data => isBelow query group row.1)
    reader.remaining
  have growing : ∀ {left right : Key}, left < right → ¬isBelow query group left →
      ¬isBelow query group right := fun less notBelow => not_isBelow_of_lt less notBelow
  unfold FileReader.advance
  generalize reader.remaining.dropWhile (fun row => isBelow query group row.1) = remaining at *
  have sortedRest := sorted.sublist isSuffix.sublist
  rcases remaining with _ | ⟨next, rest⟩
  · dsimp only
    split_ifs with raises
    · exact ⟨raises, fun row rowMem later => absurd (kept row rowMem later.1) (by simp)⟩
    · refine ⟨rfl, List.nil_suffix, by simp, ?_, by simp, by simp, ?_, by simp, rfl, ?_⟩
      · exact fun row rowMem eligible => absurd (kept row rowMem eligible.not_below) (by simp)
      · exact fun row rowMem later => kept row rowMem later.1
      · exact fun isRaising => absurd isRaising raises
  · have afterNext := (List.pairwise_cons.mp sortedRest).1
    have nextNotBelow : ¬isBelow query group next.1 := by simpa using isHead
    have restNotBelow : ∀ row ∈ rest, ¬isBelow query group row.1 :=
      fun row rowMem => growing (afterNext row rowMem) nextNotBelow
    dsimp only
    split_ifs with isEligible
    · have eligibleNext : Eligible query group next.1 := by simpa [Eligible] using isEligible
      refine ⟨rfl, (List.suffix_cons next rest).trans isSuffix, ?_, ?_, ?_, by simp, ?_,
        restNotBelow, rfl, by simp⟩
      · have length := isSuffix.length_le
        simp only [Option.toList_some, List.length_cons, List.length_nil] at length ⊢
        omega
      · intro row rowMem eligible
        rcases List.mem_cons.mp (kept row rowMem eligible.not_below) with rfl | rowMem
        · exact Or.inl rfl
        · exact Or.inr rowMem
      · rintro _ ⟨⟩
        exact ⟨eligibleNext, isSuffix.mem List.mem_cons_self, afterNext⟩
      · intro row rowMem later
        rcases List.mem_cons.mp (kept row rowMem later.1) with rfl | rowMem
        · exact absurd eligibleNext later.2
        · exact rowMem
    · have laterNext : Later query group next.1 := by
        refine ⟨nextNotBelow, ?_⟩
        simpa [Eligible] using isEligible
      have noneEligible : ∀ row ∈ next :: rest, ¬Eligible query group row.1 := by
        intro row rowMem
        rcases List.mem_cons.mp rowMem with rfl | rowMem
        · exact laterNext.2
        · exact laterNext.not_eligible (afterNext row rowMem)
      refine ⟨rfl, isSuffix, by simpa using isSuffix.length_le, ?_, by simp,
        fun _ => noneEligible, fun row rowMem later => kept row rowMem later.1,
        List.forall_mem_cons.mpr ⟨nextNotBelow, restNotBelow⟩, rfl, by simp⟩
      exact fun row rowMem eligible =>
        absurd eligible (noneEligible row (kept row rowMem eligible.not_below))

/-- The record is on the heap, or it is to be returned and still in an open file. -/
def Pending (query : QueryExpression Key) (group : BlockGroup Key Schema)
    (state : ScanState Key Data Schema) (source : Source Key Data Schema) : Prop :=
  (∃ record ∈ state.recordHeap, record.source = source) ∨
    ∃ reader ∈ state.openFileReaders, reader.block = source.block ∧
      (source.key, source.data) ∈ reader.remaining ∧ Eligible query group source.key

/-- The open files are sorted, and the heap has only records that are to be returned. -/
structure IsValid (query : QueryExpression Key) (group : BlockGroup Key Schema)
    (state : ScanState Key Data Schema) : Prop where
  sorted : ∀ reader ∈ state.openFileReaders,
    reader.remaining.Pairwise fun left right => left.1 < right.1
  eligible : ∀ record ∈ state.recordHeap, Eligible query group record.key

/--
Whatever is to be returned from the file comes after a record of it on the heap. So does
the end of what is loaded, if the reader raises there.
-/
structure Covers (query : QueryExpression Key) (group : BlockGroup Key Schema)
    (recordHeap : List (ZipperMergeHeapRecord Key Data Schema)) (index : ℕ)
    (reader : FileReader Key Data Schema) : Prop where
  notBelow : ∀ row ∈ reader.remaining, ¬isBelow query group row.1
  eligible : ∀ row ∈ reader.remaining, Eligible query group row.1 →
    ∃ record ∈ recordHeap, record.reader = index ∧ record.key < row.1
  unfinished : reader.raisesAtEnd → reader.remaining = [] →
    ∃ record ∈ recordHeap, record.reader = index

def Covered (query : QueryExpression Key) (group : BlockGroup Key Schema)
    (state : ScanState Key Data Schema) (index : ℕ) : Prop :=
  ∀ reader, state.openFileReaders[index]? = some reader →
    Covers query group state.recordHeap index reader

/-- The reader moves on, but not past records of later block groups. -/
structure FileReader.MovesOn (query : QueryExpression Key) (group : BlockGroup Key Schema)
    (reader moved : FileReader Key Data Schema) : Prop where
  block : moved.block = reader.block
  suffix : moved.remaining <:+ reader.remaining
  later : ∀ row ∈ reader.remaining, Later query group row.1 → row ∈ moved.remaining
  raisesAtEnd : moved.raisesAtEnd = reader.raisesAtEnd

/-- All readers move on. -/
def MovesOn (query : QueryExpression Key) (group : BlockGroup Key Schema)
    (before after : ScanState Key Data Schema) : Prop :=
  List.Forall₂ (FileReader.MovesOn query group) before.openFileReaders after.openFileReaders

omit [DecidableEq Schema] in
theorem FileReader.MovesOn.refl (reader : FileReader Key Data Schema) :
    reader.MovesOn query group reader :=
  ⟨rfl, List.suffix_rfl, fun _ rowMem _ => rowMem, rfl⟩

omit [DecidableEq Schema] in
theorem FileReader.MovesOn.trans {reader moved last : FileReader Key Data Schema}
    (first : reader.MovesOn query group moved) (second : moved.MovesOn query group last) :
    reader.MovesOn query group last where
  block := second.block.trans first.block
  suffix := second.suffix.trans first.suffix
  later row rowMem isLater := second.later row (first.later row rowMem isLater) isLater
  raisesAtEnd := second.raisesAtEnd.trans first.raisesAtEnd

omit [DecidableEq Schema] in
theorem MovesOn.refl (state : ScanState Key Data Schema) : MovesOn query group state state :=
  List.forall₂_same.mpr fun reader _ => FileReader.MovesOn.refl reader

omit [DecidableEq Schema] in
theorem MovesOn.trans {last : ScanState Key Data Schema} (first : MovesOn query group state next)
    (second : MovesOn query group next last) : MovesOn query group state last :=
  forall₂_trans (fun _ _ _ left right => left.trans right) first second

omit [DecidableEq Schema] in
theorem MovesOn.exists_before (movesOn : MovesOn query group state next)
    {moved : FileReader Key Data Schema} (movedMem : moved ∈ next.openFileReaders) :
    ∃ reader ∈ state.openFileReaders, reader.MovesOn query group moved :=
  exists_of_forall₂ movesOn.flip movedMem

omit [DecidableEq Schema] in
theorem MovesOn.exists_after (movesOn : MovesOn query group state next)
    {reader : FileReader Key Data Schema} (readerMem : reader ∈ state.openFileReaders) :
    ∃ moved ∈ next.openFileReaders, reader.MovesOn query group moved :=
  exists_of_forall₂ movesOn readerMem

/-- A reader may come to the end of what is loaded, and raises there. -/
def MayEnd (query : QueryExpression Key) (group : BlockGroup Key Schema)
    (state : ScanState Key Data Schema) : Prop :=
  ∃ reader ∈ state.openFileReaders, reader.raisesAtEnd ∧
    ∀ row ∈ reader.remaining, ¬Later query group row.1

omit [DecidableEq Schema] in
theorem MovesOn.mayEnd (movesOn : MovesOn query group state next)
    (mayEnd : MayEnd query group next) : MayEnd query group state := by
  obtain ⟨moved, movedMem, raises, noLater⟩ := mayEnd
  obtain ⟨reader, readerMem, moves⟩ := movesOn.exists_before movedMem
  exact ⟨reader, readerMem, moves.raisesAtEnd ▸ raises, fun row rowMem later =>
    noLater row (moves.later row rowMem later) later⟩

/-- What `pushNextRowBackToHeap` does. -/
structure Pushes (query : QueryExpression Key) (group : BlockGroup Key Schema)
    (state : ScanState Key Data Schema) (index : ℕ) (next : ScanState Key Data Schema) :
    Prop where
  valid : IsValid query group next
  pending : ∀ source, Pending query group next source ↔ Pending query group state source
  covered : Covered query group next index
  others : ∀ other ≠ index, Covered query group state other → Covered query group next other
  movesOn : MovesOn query group state next
  size : next.size ≤ state.size
  length : next.openFileReaders.length = state.openFileReaders.length

omit [DecidableEq Schema] in
theorem pushNextRowBackToHeap_spec (valid : IsValid query group state) (index : ℕ) :
    Yields (MayEnd query group state) (Pushes query group state index)
      (pushNextRowBackToHeap query group state index) := by
  unfold pushNextRowBackToHeap
  rcases isReader : state.openFileReaders[index]? with _ | reader
  · refine ⟨valid, fun _ => Iff.rfl, ?_, fun _ _ covered => covered, MovesOn.refl state, le_rfl,
      rfl⟩
    intro other isOther
    rw [isReader] at isOther
    cases isOther
  · have readerMem := List.mem_of_getElem? isReader
    have yields := FileReader.advance_spec query group (valid.sorted reader readerMem)
    refine (yields.imp (fun ends => ⟨reader, readerMem, ends⟩) fun _ advances => advances).bind ?_
    rintro ⟨result, moved⟩ advances
    dsimp only at advances ⊢
    have newMem : moved ∈ state.openFileReaders.set index moved :=
      List.mem_set (List.getElem?_eq_some_iff.mp isReader).1 _
    have oldMem : ∀ other ∈ state.openFileReaders,
        other = reader ∨ other ∈ state.openFileReaders.set index moved := by
      intro other otherMem
      obtain ⟨number, isOther⟩ := List.getElem?_of_mem otherMem
      by_cases same : index = number
      · subst same
        exact Or.inl (Option.some.inj (isOther.symm.trans isReader))
      · right
        apply List.mem_of_getElem? (i := number)
        rw [List.getElem?_set_ne same]
        exact isOther
    refine ⟨⟨?_, ?_⟩, ?_, ?_, ?_, ?_, ?_, List.length_set⟩
    · intro other otherMem
      rcases List.mem_or_eq_of_mem_set otherMem with otherMem | rfl
      · exact valid.sorted other otherMem
      · exact (valid.sorted reader readerMem).sublist advances.suffix.sublist
    · intro record recordMem
      rcases List.mem_append.mp recordMem with recordMem | isNew
      · exact valid.eligible record recordMem
      · obtain ⟨row, isRow, rfl⟩ := List.mem_map.mp isNew
        exact (advances.returned row (Option.mem_toList.mp isRow)).1
    · rintro ⟨key, data, block⟩
      constructor
      · rintro (⟨record, recordMem, isSource⟩ | ⟨other, otherMem, sameBlock, rowMem, eligible⟩)
        · rcases List.mem_append.mp recordMem with recordMem | isNew
          · exact Or.inl ⟨record, recordMem, isSource⟩
          · obtain ⟨row, isRow, rfl⟩ := List.mem_map.mp isNew
            cases isSource
            obtain ⟨eligible, rowMem, -⟩ := advances.returned row (Option.mem_toList.mp isRow)
            exact Or.inr ⟨reader, readerMem, advances.block.symm, rowMem, eligible⟩
        · rcases List.mem_or_eq_of_mem_set otherMem with otherMem | rfl
          · exact Or.inr ⟨other, otherMem, sameBlock, rowMem, eligible⟩
          · exact Or.inr ⟨reader, readerMem, advances.block.symm.trans sameBlock,
              advances.suffix.mem rowMem, eligible⟩
      · rintro (⟨record, recordMem, isSource⟩ | ⟨other, otherMem, sameBlock, rowMem, eligible⟩)
        · exact Or.inl ⟨record, List.mem_append_left _ recordMem, isSource⟩
        · rcases oldMem other otherMem with rfl | otherMem
          · rcases advances.eligible _ rowMem eligible with isResult | rowMem
            · left
              refine ⟨⟨key, data, index, moved.block⟩, List.mem_append_right _ ?_, ?_⟩
              · simp [isResult]
              · rw [ZipperMergeHeapRecord.source, advances.block, sameBlock]
            · exact Or.inr ⟨moved, newMem, advances.block.trans sameBlock, rowMem, eligible⟩
          · exact Or.inr ⟨other, otherMem, sameBlock, rowMem, eligible⟩
    · intro other isOther
      rw [List.getElem?_set_self (List.getElem?_eq_some_iff.mp isReader).1] at isOther
      cases isOther
      refine ⟨advances.notBelow, fun row rowMem eligible => ?_, fun raises isEmpty => ?_⟩
      · rcases isResult : result with _ | first
        · exact absurd eligible (advances.exhausted isResult row rowMem)
        · refine ⟨⟨first.1, first.2, index, moved.block⟩, List.mem_append_right _ (by simp), rfl,
            ?_⟩
          exact (advances.returned first isResult).2.2 row rowMem
      · rcases isResult : result with _ | first
        · rw [advances.raisesAtEnd] at raises
          exact absurd isEmpty (advances.unfinished raises isResult)
        · exact ⟨⟨first.1, first.2, index, moved.block⟩, List.mem_append_right _ (by simp), rfl⟩
    · intro number differs covered other isOther
      rw [List.getElem?_set_ne differs.symm] at isOther
      have covers := covered other isOther
      refine ⟨covers.notBelow, fun row rowMem eligible => ?_, fun raises isEmpty => ?_⟩
      · obtain ⟨record, recordMem, isNumber, less⟩ := covers.eligible row rowMem eligible
        exact ⟨record, List.mem_append_left _ recordMem, isNumber, less⟩
      · obtain ⟨record, recordMem, isNumber⟩ := covers.unfinished raises isEmpty
        exact ⟨record, List.mem_append_left _ recordMem, isNumber⟩
    · exact forall₂_set FileReader.MovesOn.refl isReader
        ⟨advances.block, advances.suffix, advances.later, advances.raisesAtEnd⟩
    · have lengths := sum_map_set moved (fun reader => reader.remaining.length) isReader
      have length := advances.length
      simp only [ScanState.size, List.length_append, List.length_map]
      omega

/-- All files are sorted and covered by the heap. -/
structure IsSeeded (query : QueryExpression Key) (group : BlockGroup Key Schema)
    (state : ScanState Key Data Schema) : Prop extends IsValid query group state where
  covered : ∀ index, Covered query group state index

omit [DecidableEq Schema] in
/-- Every pending record comes after some record of the heap, or is one. -/
theorem IsSeeded.exists_le (seeded : IsSeeded query group state)
    {source : Source Key Data Schema} (pending : Pending query group state source) :
    ∃ record ∈ state.recordHeap, record.key ≤ source.key := by
  rcases pending with ⟨record, recordMem, rfl⟩ | ⟨reader, readerMem, -, rowMem, eligible⟩
  · exact ⟨record, recordMem, le_rfl⟩
  · obtain ⟨index, isReader⟩ := List.getElem?_of_mem readerMem
    obtain ⟨record, recordMem, -, less⟩ :=
      (seeded.covered index reader isReader).eligible _ rowMem eligible
    exact ⟨record, recordMem, less.le⟩

/-- What it does to take a record from the heap and put the next one of its file on it. -/
structure Takes (query : QueryExpression Key) (group : BlockGroup Key Schema)
    (state : ScanState Key Data Schema) (record : ZipperMergeHeapRecord Key Data Schema)
    (next : ScanState Key Data Schema) : Prop where
  seeded : IsSeeded query group next
  pending : ∀ source, Pending query group state source ↔
    source = record.source ∨ Pending query group next source
  least : ∀ source, Pending query group next source → record.key ≤ source.key
  movesOn : MovesOn query group state next
  size : next.size < state.size

omit [DecidableEq Schema] in
theorem IsSeeded.takes (seeded : IsSeeded query group state)
    {record : ZipperMergeHeapRecord Key Data Schema}
    {rest : List (ZipperMergeHeapRecord Key Data Schema)}
    (popped : popLeast (·.key) state.recordHeap = some (record, rest)) :
    Yields (MayEnd query group state) (Takes query group state record)
      (pushNextRowBackToHeap query group { state with recordHeap := rest } record.reader) := by
  obtain ⟨perm, isLeast⟩ := popLeast_eq_some popped
  have heapMem : ∀ other, other ∈ state.recordHeap ↔ other = record ∨ other ∈ rest := by
    intro other
    rw [perm.mem_iff, List.mem_cons]
  have validRest : IsValid query group { state with recordHeap := rest } :=
    ⟨seeded.sorted, fun other otherMem =>
      seeded.eligible other ((heapMem other).mpr (Or.inr otherMem))⟩
  refine (pushNextRowBackToHeap_spec validRest record.reader).imp (fun mayEnd => mayEnd) ?_
  intro next pushes
  have pending : ∀ source, Pending query group state source ↔ source = record.source ∨
      Pending query group { state with recordHeap := rest } source := by
    intro source
    constructor
    · rintro (⟨other, otherMem, rfl⟩ | inFile)
      · rcases (heapMem other).mp otherMem with rfl | otherMem
        · exact Or.inl rfl
        · exact Or.inr (Or.inl ⟨other, otherMem, rfl⟩)
      · exact Or.inr (Or.inr inFile)
    · rintro (rfl | ⟨other, otherMem, rfl⟩ | inFile)
      · exact Or.inl ⟨record, (heapMem record).mpr (Or.inl rfl), rfl⟩
      · exact Or.inl ⟨other, (heapMem other).mpr (Or.inr otherMem), rfl⟩
      · exact Or.inr inFile
  refine ⟨⟨pushes.valid, ?_⟩, ?_, ?_, pushes.movesOn, ?_⟩
  · intro index
    by_cases same : index = record.reader
    · exact same ▸ pushes.covered
    · apply pushes.others index same
      intro reader isReader
      have covers := seeded.covered index reader isReader
      refine ⟨covers.notBelow, fun row rowMem eligible => ?_, fun raises isEmpty => ?_⟩
      · obtain ⟨other, otherMem, isIndex, less⟩ := covers.eligible row rowMem eligible
        rcases (heapMem other).mp otherMem with rfl | otherMem
        · exact absurd isIndex.symm same
        · exact ⟨other, otherMem, isIndex, less⟩
      · obtain ⟨other, otherMem, isIndex⟩ := covers.unfinished raises isEmpty
        rcases (heapMem other).mp otherMem with rfl | otherMem
        · exact absurd isIndex.symm same
        · exact ⟨other, otherMem, isIndex⟩
  · intro source
    rw [pushes.pending]
    exact pending source
  · intro source isPending
    rw [pushes.pending] at isPending
    obtain ⟨other, otherMem, le⟩ := seeded.exists_le ((pending source).mpr (Or.inr isPending))
    exact (isLeast other otherMem).trans le
  · apply pushes.size.trans_lt
    simp only [ScanState.size, perm.length_eq, List.length_cons]
    omega

/-- The records of one key have been taken, and only later ones are left. -/
structure TakesAll (query : QueryExpression Key) (group : BlockGroup Key Schema)
    (state : ScanState Key Data Schema) (key : Key)
    (records : List (ZipperMergeHeapRecord Key Data Schema))
    (next : ScanState Key Data Schema) : Prop where
  seeded : IsSeeded query group next
  pending : ∀ source, Pending query group state source ↔
    source ∈ records.map ZipperMergeHeapRecord.source ∨ Pending query group next source
  isKey : ∀ record ∈ records, record.key = key
  less : ∀ source, Pending query group next source → key < source.key
  movesOn : MovesOn query group state next
  size : next.size ≤ state.size

omit [DecidableEq Schema] in
/-- Nothing is taken if the heap has no record of the key. -/
theorem IsSeeded.takesAll_nil {key : Key} (seeded : IsSeeded query group state)
    (greater : ∀ record ∈ state.recordHeap, key < record.key) :
    TakesAll query group state key [] state := by
  refine ⟨seeded, by simp, by simp, fun source pending => ?_, MovesOn.refl state, le_rfl⟩
  obtain ⟨record, recordMem, le⟩ := seeded.exists_le pending
  exact (greater record recordMem).trans_le le

omit [DecidableEq Schema] in
theorem Takes.takesAll {key : Key} {record : ZipperMergeHeapRecord Key Data Schema}
    {records : List (ZipperMergeHeapRecord Key Data Schema)} {last : ScanState Key Data Schema}
    (takes : Takes query group state record next) (isKey : record.key = key)
    (rest : TakesAll query group next key records last) :
    TakesAll query group state key (record :: records) last where
  seeded := rest.seeded
  pending source := by
    rw [takes.pending, rest.pending, List.map_cons, List.mem_cons, or_assoc]
  isKey := by
    simp only [List.mem_cons, forall_eq_or_imp]
    exact ⟨isKey, rest.isKey⟩
  less := rest.less
  movesOn := takes.movesOn.trans rest.movesOn
  size := rest.size.trans takes.size.le

omit [DecidableEq Schema] in
theorem popEqual_spec {currPk : Key} {fuel : ℕ} (seeded : IsSeeded query group state)
    (enough : state.size ≤ fuel)
    (least : ∀ source, Pending query group state source → currPk ≤ source.key)
    (merged : List (ZipperMergeHeapRecord Key Data Schema)) :
    Yields (MayEnd query group state) (fun popped => ∃ records, popped.1 = merged ++ records ∧
      TakesAll query group state currPk records popped.2)
        (popEqual query group currPk fuel state merged) := by
  induction fuel generalizing state merged with
  | zero =>
      refine ⟨[], by simp, seeded.takesAll_nil fun record recordMem => ?_⟩
      have isEmpty : state.recordHeap.length = 0 := by
        rw [ScanState.size] at enough
        omega
      rw [List.length_eq_zero_iff.mp isEmpty] at recordMem
      cases recordMem
  | succ fuel ih =>
      rcases popped : popLeast (·.key) state.recordHeap with _ | ⟨record, rest⟩
      · simp only [popEqual, popped]
        refine ⟨[], by simp, seeded.takesAll_nil fun record recordMem => ?_⟩
        rw [popLeast_eq_none.mp popped] at recordMem
        cases recordMem
      · obtain ⟨perm, isLeast⟩ := popLeast_eq_some popped
        simp only [popEqual, popped]
        split_ifs with isKey
        · refine (seeded.takes popped).bind fun pushed takes => ?_
          have leastNext : ∀ source, Pending query group pushed source → currPk ≤ source.key :=
            fun source pending => least source ((takes.pending source).mpr (Or.inr pending))
          have sizes := takes.size
          refine (ih takes.seeded (by omega) leastNext (merged ++ [record])).imp
            takes.movesOn.mayEnd ?_
          rintro ⟨popped, last⟩ ⟨records, isMerged, takesAll⟩
          refine ⟨record :: records, ?_, takes.takesAll isKey takesAll⟩
          dsimp only at isMerged ⊢
          rw [isMerged, List.append_assoc]
          rfl
        · refine ⟨[], by simp, seeded.takesAll_nil fun other otherMem => ?_⟩
          have recordMem : record ∈ state.recordHeap := perm.mem_iff.mpr List.mem_cons_self
          have le := least record.source (Or.inl ⟨record, recordMem, rfl⟩)
          exact (lt_of_le_of_ne le (Ne.symm isKey)).trans_le (isLeast other otherMem)

end Invariant

/-- The records of `present`, merged by their keys in ascending order. -/
structure IsZipped (present : Source Key Data Schema → Prop) (keys : List Key)
    (zipped : List (List (ZipperMergeHeapRecord Key Data Schema))) : Prop where
  ascending : keys.Pairwise (· < ·)
  merged : List.Forall₂ (fun key records => records ≠ [] ∧ ∀ source,
    source ∈ records.map ZipperMergeHeapRecord.source ↔ present source ∧ source.key = key)
      keys zipped
  complete : ∀ source, present source → source.key ∈ keys

section IsZipped

variable {present earlier later : Source Key Data Schema → Prop} {keys laterKeys : List Key}
  {zipped laterZipped : List (List (ZipperMergeHeapRecord Key Data Schema))}

omit [DecidableEq Schema] in
theorem IsZipped.nil (absent : ∀ source, ¬present source) : IsZipped present [] [] :=
  ⟨List.Pairwise.nil, List.Forall₂.nil, fun source isPresent => absurd isPresent (absent source)⟩

omit [DecidableEq Schema] in
theorem IsZipped.exists_of_mem (isZipped : IsZipped present keys zipped) {key : Key}
    (keyMem : key ∈ keys) : ∃ source, present source ∧ source.key = key := by
  obtain ⟨-, merged, -⟩ := isZipped
  induction merged with
  | nil => cases keyMem
  | @cons head records keys zipped isMerged _ ih =>
      rcases List.mem_cons.mp keyMem with rfl | keyMem
      · obtain ⟨record, recordMem⟩ := List.exists_mem_of_ne_nil records isMerged.1
        exact ⟨record.source, (isMerged.2 _).mp (List.mem_map_of_mem recordMem)⟩
      · exact ih keyMem

omit [DecidableEq Schema] in
theorem IsZipped.congr (isZipped : IsZipped earlier keys zipped)
    (same : ∀ source, earlier source ↔ present source) : IsZipped present keys zipped where
  ascending := isZipped.ascending
  merged := by
    refine isZipped.merged.imp fun key records isMerged => ⟨isMerged.1, fun source => ?_⟩
    rw [isMerged.2, same]
  complete source isSource := isZipped.complete source ((same source).mpr isSource)

omit [DecidableEq Schema] in
/-- What is present only later comes later. -/
theorem IsZipped.append (first : IsZipped earlier keys zipped)
    (second : IsZipped later laterKeys laterZipped)
    (isPresent : ∀ source, present source ↔ earlier source ∨ later source)
    (less : ∀ left right, earlier left → later right → left.key < right.key) :
    IsZipped present (keys ++ laterKeys) (zipped ++ laterZipped) where
  ascending := by
    rw [List.pairwise_append]
    refine ⟨first.ascending, second.ascending, fun key keyMem other otherMem => ?_⟩
    obtain ⟨left, isEarlier, rfl⟩ := first.exists_of_mem keyMem
    obtain ⟨right, isLater, rfl⟩ := second.exists_of_mem otherMem
    exact less left right isEarlier isLater
  merged := by
    apply List.rel_append
    · refine first.merged.imp fun key records isMerged => ⟨isMerged.1, fun source => ?_⟩
      obtain ⟨record, recordMem⟩ := List.exists_mem_of_ne_nil records isMerged.1
      obtain ⟨isEarlier, isKey⟩ := (isMerged.2 _).mp (List.mem_map_of_mem recordMem)
      rw [isMerged.2, isPresent]
      refine and_congr_left fun sameKey => (or_iff_left fun isLater => ?_).symm
      exact absurd (less _ _ isEarlier isLater) (by simp [isKey, sameKey])
    · refine second.merged.imp fun key records isMerged => ⟨isMerged.1, fun source => ?_⟩
      obtain ⟨record, recordMem⟩ := List.exists_mem_of_ne_nil records isMerged.1
      obtain ⟨isLater, isKey⟩ := (isMerged.2 _).mp (List.mem_map_of_mem recordMem)
      rw [isMerged.2, isPresent]
      refine and_congr_left fun sameKey => (or_iff_right fun isEarlier => ?_).symm
      exact absurd (less _ _ isEarlier isLater) (by simp [isKey, sameKey])
  complete source isSource := by
    rw [List.mem_append]
    exact ((isPresent source).mp isSource).imp (first.complete source) (second.complete source)

end IsZipped

section ZipperMerge

variable {query : QueryExpression Key} {group : BlockGroup Key Schema}
  {state next : ScanState Key Data Schema}

omit [DecidableEq Schema] in
theorem TakesAll.isZipped {key : Key} {keys : List Key}
    {records : List (ZipperMergeHeapRecord Key Data Schema)}
    {zipped : List (List (ZipperMergeHeapRecord Key Data Schema))}
    (takesAll : TakesAll query group state key records next) (nonempty : records ≠ [])
    (rest : IsZipped (Pending query group next) keys zipped) :
    IsZipped (Pending query group state) (key :: keys) (records :: zipped) := by
  have first : IsZipped (fun source => source ∈ records.map ZipperMergeHeapRecord.source)
      [key] [records] := by
    have isKey : ∀ source ∈ records.map ZipperMergeHeapRecord.source, source.key = key := by
      intro source sourceMem
      obtain ⟨record, recordMem, rfl⟩ := List.mem_map.mp sourceMem
      exact takesAll.isKey record recordMem
    refine ⟨List.pairwise_singleton _ _, ?_, fun source sourceMem => ?_⟩
    · exact List.Forall₂.cons ⟨nonempty, fun source => (and_iff_left_of_imp (isKey source)).symm⟩
        List.Forall₂.nil
    · exact List.mem_singleton.mpr (isKey source sourceMem)
  apply first.append rest takesAll.pending
  intro left right leftMem isPending
  obtain ⟨record, recordMem, rfl⟩ := List.mem_map.mp leftMem
  exact (takesAll.isKey record recordMem).trans_lt (takesAll.less right isPending)

omit [DecidableEq Schema] in
theorem IsSeeded.isZipped_nil (seeded : IsSeeded query group state)
    (isEmpty : state.recordHeap = []) : IsZipped (Pending query group state) [] [] := by
  apply IsZipped.nil
  intro source pending
  obtain ⟨record, recordMem, -⟩ := seeded.exists_le pending
  rw [isEmpty] at recordMem
  cases recordMem

omit [DecidableEq Schema] in
/-- All pending records of the block group are merged, and the readers moved on. -/
theorem zipperMergeSortedRecords_spec {fuel : ℕ} (seeded : IsSeeded query group state)
    (enough : state.size ≤ fuel) :
    Yields (MayEnd query group state) (fun result =>
      (∃ keys, IsZipped (Pending query group state) keys result.1) ∧
        MovesOn query group state result.2 ∧ IsSeeded query group result.2 ∧
          result.2.recordHeap = [])
      (zipperMergeSortedRecords query group fuel state) := by
  induction fuel generalizing state with
  | zero =>
      have noRecords : state.recordHeap.length = 0 := by
        rw [ScanState.size] at enough
        omega
      have isEmpty := List.length_eq_zero_iff.mp noRecords
      exact ⟨⟨[], seeded.isZipped_nil isEmpty⟩, MovesOn.refl state, seeded, isEmpty⟩
  | succ fuel ih =>
      rcases popped : popLeast (·.key) state.recordHeap with _ | ⟨record, rest⟩
      · have isEmpty := popLeast_eq_none.mp popped
        simp only [zipperMergeSortedRecords, popped]
        exact ⟨⟨[], seeded.isZipped_nil isEmpty⟩, MovesOn.refl state, seeded, isEmpty⟩
      · have recordMem : record ∈ state.recordHeap :=
          (popLeast_eq_some popped).1.mem_iff.mpr List.mem_cons_self
        obtain ⟨isMatch, inRange⟩ := seeded.eligible record recordMem
        simp only [zipperMergeSortedRecords, popped, isMatch, inRange, not_true_eq_false, if_false]
        refine (seeded.takes popped).bind fun pushed takes => ?_
        have merges := popEqual_spec takes.seeded le_rfl takes.least [record]
        refine (merges.imp takes.movesOn.mayEnd fun _ merged => merged).bind ?_
        rintro ⟨merged, middle⟩ ⟨records, isMerged, takesRest⟩
        have takesAll := takes.takesAll rfl takesRest
        have sizes := takes.size
        have sizesRest := takesRest.size
        refine ((ih takesRest.seeded (by omega)).imp takesAll.movesOn.mayEnd
          fun _ others => others).bind ?_
        rintro ⟨zipped, last⟩ ⟨⟨keys, isZipped⟩, movesOn, seededLast, isEmpty⟩
        refine ⟨⟨record.key :: keys, ?_⟩, takesAll.movesOn.trans movesOn, seededLast, isEmpty⟩
        dsimp only at isMerged
        subst isMerged
        exact takesAll.isZipped (by simp) isZipped

omit [DecidableEq Schema] in
/-- Pushing the next record of every open file seeds the heap. -/
theorem isSeeded_foldlM (valid : IsValid query group state) :
    Yields (MayEnd query group state) (fun seeded => IsSeeded query group seeded ∧
      (∀ source, Pending query group seeded source ↔ Pending query group state source) ∧
        MovesOn query group state seeded)
      ((List.range state.openFileReaders.length).foldlM (pushNextRowBackToHeap query group)
        state) := by
  have partly (count : ℕ) : Yields (MayEnd query group state) (fun pushed =>
      IsValid query group pushed ∧
        (∀ source, Pending query group pushed source ↔ Pending query group state source) ∧
          MovesOn query group state pushed ∧ ∀ index < count, Covered query group pushed index)
      ((List.range count).foldlM (pushNextRowBackToHeap query group) state) := by
    induction count with
    | zero => exact ⟨valid, fun _ => Iff.rfl, MovesOn.refl state, by simp⟩
    | succ count ih =>
        rw [List.range_succ, List.foldlM_append]
        refine ih.bind ?_
        rintro pushed ⟨valid, pending, movesOn, covered⟩
        rw [List.foldlM_cons]
        refine ((pushNextRowBackToHeap_spec valid count).imp movesOn.mayEnd
          fun _ pushes => pushes).bind fun next pushes => ?_
        refine ⟨pushes.valid, fun source => (pushes.pending source).trans (pending source),
          movesOn.trans pushes.movesOn, fun index less => ?_⟩
        rcases (Nat.lt_succ_iff.mp less).lt_or_eq with before | rfl
        · exact pushes.others index before.ne (covered index before)
        · exact pushes.covered
  refine (partly _).imp (fun mayEnd => mayEnd) ?_
  rintro pushed ⟨valid, pending, movesOn, covered⟩
  refine ⟨⟨valid, fun index => ?_⟩, pending, movesOn⟩
  rcases Nat.lt_or_ge index state.openFileReaders.length with less | beyond
  · exact covered index less
  · intro reader isReader
    rw [List.getElem?_eq_none (movesOn.length_eq.ge.trans beyond)] at isReader
    cases isReader

end ZipperMerge

/--
The SST rows of the manifests and their files. Every file is sorted, each of its batches has
a record, its reader has at least one of them in memory, and its row has its first and its
last key.
-/
structure Dataset (Key Data Schema : Type u) [LinearOrder Key] where
  manifests : List (List (SSTableRow Key) × DeltaContext Schema)
  file : SSTableRow Key → DataFile Key Data
  distinct : ((BlockIntervalTree.blocksOf manifests).map (·.row)).Nodup
  nonempty : ∀ block ∈ BlockIntervalTree.blocksOf manifests, [] ∉ (file block.row).batches
  loads : ∀ block ∈ BlockIntervalTree.blocksOf manifests, (file block.row).loaded ≠ []
  sorted : ∀ block ∈ BlockIntervalTree.blocksOf manifests,
    (file block.row).batches.flatten.Pairwise fun left right => left.1 < right.1
  first : ∀ block ∈ BlockIntervalTree.blocksOf manifests,
    (file block.row).batches.flatten.head?.map Prod.fst = some block.row.keyMin
  last : ∀ block ∈ BlockIntervalTree.blocksOf manifests,
    (file block.row).batches.flatten.getLast?.map Prod.fst = some block.row.keyMax

namespace Dataset

variable {dataset : Dataset Key Data Schema}

def blocks (dataset : Dataset Key Data Schema) : List (Block Key Schema) :=
  BlockIntervalTree.blocksOf dataset.manifests

def records (dataset : Dataset Key Data Schema) (row : SSTableRow Key) : List (Key × Data) :=
  (dataset.file row).batches.flatten

def loaded (dataset : Dataset Key Data Schema) (row : SSTableRow Key) : List (Key × Data) :=
  (dataset.file row).loaded

omit [DecidableEq Schema] in
theorem loaded_begins (row : SSTableRow Key) : dataset.loaded row <+: dataset.records row :=
  ⟨_, DataFile.loaded_append_unloaded _⟩

omit [DecidableEq Schema] in
theorem eq_of_row_eq {left right : Block Key Schema} (leftMem : left ∈ dataset.blocks)
    (rightMem : right ∈ dataset.blocks) (sameRow : left.row = right.row) : left = right :=
  List.inj_on_of_nodup_map dataset.distinct leftMem rightMem sameRow

omit [DecidableEq Schema] in
/-- The keys of a file are between those of its row. -/
theorem key_mem {block : Block Key Schema} (blockMem : block ∈ dataset.blocks)
    {row : Key × Data} (rowMem : row ∈ dataset.records block.row) :
    block.row.keyMin ≤ row.1 ∧ row.1 ≤ block.row.keyMax := by
  have sorted := dataset.sorted block blockMem
  have first := dataset.first block blockMem
  have last := dataset.last block blockMem
  rw [records] at rowMem
  generalize (dataset.file block.row).batches.flatten = rows at *
  obtain ⟨i, isRow⟩ := List.getElem?_of_mem rowMem
  obtain ⟨iLt, rfl⟩ := List.getElem?_eq_some_iff.mp isRow
  rw [List.head?_eq_getElem?, List.getElem?_eq_getElem (by omega)] at first
  rw [List.getLast?_eq_getElem?, List.getElem?_eq_getElem (by omega)] at last
  rw [← Option.some.inj first, ← Option.some.inj last]
  constructor
  · rcases Nat.eq_zero_or_pos i with rfl | positive
    · exact le_rfl
    · exact (List.pairwise_iff_getElem.mp sorted 0 i (by omega) iLt positive).le
  · rcases Nat.lt_or_ge i (rows.length - 1) with less | atEnd
    · exact (List.pairwise_iff_getElem.mp sorted i _ iLt (by omega) less).le
    · have isLast : rows.length - 1 = i := by omega
      simp [isLast]

end Dataset

section Groups

variable {dataset : Dataset Key Data Schema} {query : QueryExpression Key}
  {readers : List (FileReader Key Data Schema)} {lower upper : Key}

/-- The open readers have not returned the loaded records from `lower` on that are asked for. -/
structure IsReady (dataset : Dataset Key Data Schema) (query : QueryExpression Key) (lower : Key)
    (readers : List (FileReader Key Data Schema)) : Prop where
  block : ∀ reader ∈ readers, reader.block ∈ dataset.blocks
  suffix : ∀ reader ∈ readers, reader.remaining <:+ dataset.loaded reader.block.row
  keeps : ∀ reader ∈ readers, ∀ row ∈ dataset.loaded reader.block.row, lower ≤ row.1 →
    ¬query.belowQueryRange row.1 → row ∈ reader.remaining
  raisesAtEnd : ∀ reader ∈ readers,
    reader.raisesAtEnd = (dataset.file reader.block.row).raisesAtEnd

omit [DecidableEq Schema] in
theorem IsReady.openReaders (ready : IsReady dataset query lower readers)
    {blocks : List (Block Key Schema)} (fromDataset : ∀ block ∈ blocks, block ∈ dataset.blocks) :
    IsReady dataset query lower (openReaders dataset.file readers blocks) ∧
      (∀ block ∈ blocks, ∃ reader ∈ openReaders dataset.file readers blocks,
        reader.block = block) ∧
      (∀ reader ∈ readers, reader ∈ openReaders dataset.file readers blocks) ∧
      ∀ reader ∈ openReaders dataset.file readers blocks,
        reader ∈ readers ∨ reader.block ∈ blocks := by
  induction blocks generalizing readers with
  | nil => exact ⟨ready, by simp, fun _ readerMem => readerMem, fun _ readerMem => Or.inl readerMem⟩
  | cons block blocks ih =>
      have blockMem := fromDataset block List.mem_cons_self
      have othersMem : ∀ other ∈ blocks, other ∈ dataset.blocks := fun other otherMem =>
        fromDataset other (List.mem_cons_of_mem block otherMem)
      simp only [Rivulet.openReaders, List.foldl_cons]
      split_ifs with isOpen
      · obtain ⟨readyAll, opened, kept, origin⟩ := ih ready othersMem
        refine ⟨readyAll, ?_, kept, fun reader readerMem =>
          (origin reader readerMem).imp_right (List.mem_cons_of_mem block)⟩
        simp only [List.mem_cons, forall_eq_or_imp]
        refine ⟨?_, opened⟩
        obtain ⟨reader, readerMem, sameRow⟩ := List.any_eq_true.mp isOpen
        refine ⟨reader, kept reader readerMem, ?_⟩
        exact Dataset.eq_of_row_eq (ready.block reader readerMem) blockMem
          (of_decide_eq_true sameRow)
      · have readyNew : IsReady dataset query lower (readers ++
            [⟨block, (dataset.file block.row).loaded, (dataset.file block.row).raisesAtEnd⟩]) := by
          constructor
          all_goals
            simp only [List.mem_append, List.mem_singleton]
            rintro reader (readerMem | rfl)
          · exact ready.block reader readerMem
          · exact blockMem
          · exact ready.suffix reader readerMem
          · exact List.suffix_rfl
          · exact ready.keeps reader readerMem
          · exact fun row rowMem _ _ => rowMem
          · exact ready.raisesAtEnd reader readerMem
          · rfl
        obtain ⟨readyAll, opened, kept, origin⟩ := ih readyNew othersMem
        refine ⟨readyAll, ?_, fun reader readerMem =>
          kept reader (List.mem_append_left _ readerMem), fun reader readerMem => ?_⟩
        · simp only [List.mem_cons, forall_eq_or_imp]
          exact ⟨⟨_, kept _ (List.mem_append_right _ (List.mem_singleton_self _)), rfl⟩, opened⟩
        · rcases origin reader readerMem with before | isBlock
          · rcases List.mem_append.mp before with before | isNew
            · exact Or.inl before
            · rw [List.mem_singleton.mp isNew]
              exact Or.inr List.mem_cons_self
          · exact Or.inr (List.mem_cons_of_mem block isBlock)

/-- The loaded records of the dataset that are asked for, in a range. -/
def InRange (dataset : Dataset Key Data Schema) (query : QueryExpression Key)
    (range : Key → Prop) (source : Source Key Data Schema) : Prop :=
  source.block ∈ dataset.blocks ∧ (source.key, source.data) ∈ dataset.loaded source.block.row ∧
    query.matchesQuery source.key ∧ range source.key

/-- The reader of the block raises if it is open while the group is scanned. -/
def EndsIn (dataset : Dataset Key Data Schema) (query : QueryExpression Key)
    (group : BlockGroup Key Schema) (block : Block Key Schema) : Prop :=
  (dataset.file block.row).raisesAtEnd ∧
    ∀ last ∈ (dataset.loaded block.row).getLast?, ¬Later query group last.1

variable {iterate : List (Block Key Schema) → List (Block Key Schema)}
  {trees : IntervalTrees Key (Block Key Schema)} {index : BlockIntervalTree trees}

omit [DecidableEq Schema] in
theorem IsReady.isValid (ready : IsReady dataset query lower readers)
    (group : BlockGroup Key Schema) : IsValid query group ⟨readers, []⟩ where
  sorted reader readerMem :=
    (dataset.sorted reader.block (ready.block reader readerMem)).sublist
      ((ready.suffix reader readerMem).sublist.trans (Dataset.loaded_begins _).sublist)
  eligible := by simp

omit [DecidableEq Schema] in
/-- What is pending once all files of a group are open is what the group has to return. -/
theorem IsReady.pending_iff {group : BlockGroup Key Schema}
    (ready : IsReady dataset query group.keyMin readers)
    (opened : ∀ block ∈ group.blocks, ∃ reader ∈ readers, reader.block = block)
    (contained : ∀ source, InRange dataset query (fun key => group.keyInRange key) source →
      source.block ∈ group.blocks) (source : Source Key Data Schema) :
    Pending query group ⟨readers, []⟩ source ↔
      InRange dataset query (fun key => group.keyInRange key) source := by
  constructor
  · rintro (⟨record, recordMem, -⟩ | ⟨reader, readerMem, sameBlock, rowMem, isMatch, inRange⟩)
    · cases recordMem
    · refine ⟨sameBlock ▸ ready.block reader readerMem, ?_, isMatch, inRange⟩
      exact sameBlock ▸ (ready.suffix reader readerMem).mem rowMem
  · intro isSource
    obtain ⟨reader, readerMem, sameBlock⟩ := opened source.block (contained source isSource)
    obtain ⟨-, rowMem, isMatch, inRange⟩ := isSource
    refine Or.inr ⟨reader, readerMem, sameBlock, ?_, isMatch, inRange⟩
    apply ready.keeps reader readerMem _ (sameBlock.symm ▸ rowMem)
    · exact (BlockGroup.keyInRange_iff.mp inRange).1
    · simp [QueryExpression.belowQueryRange_of_matchesQuery isMatch]

omit [DecidableEq Schema] in
/-- The readers that moved on are ready for the next group. -/
theorem IsReady.movesOn {group : BlockGroup Key Schema}
    (ready : IsReady dataset query group.keyMin readers) {moved : ScanState Key Data Schema}
    (movesOn : MovesOn query group ⟨readers, []⟩ moved) (le : group.keyMin ≤ upper)
    (before : ∀ key, group.keyInRange key → key < upper) :
    IsReady dataset query upper moved.openFileReaders := by
  refine ⟨fun reader readerMem => ?_, fun reader readerMem => ?_, fun reader readerMem => ?_,
    fun reader readerMem => ?_⟩
  all_goals
    obtain ⟨earlier, earlierMem, moves⟩ := movesOn.exists_before readerMem
  · exact moves.block ▸ ready.block earlier earlierMem
  · rw [moves.block]
    exact moves.suffix.trans (ready.suffix earlier earlierMem)
  · intro row rowMem upperLe notBelowQuery
    rw [moves.block] at rowMem
    apply moves.later row
    · exact ready.keeps earlier earlierMem row rowMem (le.trans upperLe) notBelowQuery
    · constructor
      · have notBelowGroup : group.keyBelowRange row.1 = false := by
          simpa [BlockGroup.keyBelowRange] using le.trans upperLe
        simp [isBelow, notBelowGroup, notBelowQuery]
      · exact fun eligible => absurd (before row.1 eligible.2) (not_lt.mpr upperLe)
  · rw [moves.raisesAtEnd, moves.block]
    exact ready.raisesAtEnd earlier earlierMem

omit [DecidableEq Schema] in
/-- Only readers that come to the end of what is loaded raise. -/
theorem IsReady.exists_endsIn {group : BlockGroup Key Schema}
    (ready : IsReady dataset query group.keyMin readers)
    (mayEnd : MayEnd query group ⟨readers, []⟩) :
    ∃ reader ∈ readers, EndsIn dataset query group reader.block := by
  obtain ⟨reader, readerMem, raises, noLater⟩ := mayEnd
  refine ⟨reader, readerMem, ready.raisesAtEnd reader readerMem ▸ raises, ?_⟩
  intro last isLast later
  have notBelow := later.1
  simp only [isBelow, Bool.or_eq_true, not_or, BlockGroup.keyBelowRange, decide_eq_true_eq,
    not_lt] at notBelow
  apply noLater last _ later
  exact ready.keeps reader readerMem last (List.mem_of_getLast? isLast) notBelow.1 notBelow.2

omit [DecidableEq Schema] in
/-- What is loaded does not end in a group that was scanned without an error. -/
theorem not_endsIn_of_seeded {group : BlockGroup Key Schema} {moved : ScanState Key Data Schema}
    (ready : IsReady dataset query group.keyMin readers)
    (movesOn : MovesOn query group ⟨readers, []⟩ moved) (seeded : IsSeeded query group moved)
    (isEmpty : moved.recordHeap = []) {reader : FileReader Key Data Schema}
    (readerMem : reader ∈ readers) : ¬EndsIn dataset query group reader.block := by
  rintro ⟨raises, notLater⟩
  obtain ⟨after, afterMem, moves⟩ := movesOn.exists_after readerMem
  obtain ⟨number, isAfter⟩ := List.getElem?_of_mem afterMem
  have covers := seeded.covered number after isAfter
  rw [isEmpty] at covers
  have remains : after.remaining ≠ [] := by
    intro isFinished
    rw [← ready.raisesAtEnd reader readerMem, ← moves.raisesAtEnd] at raises
    obtain ⟨record, recordMem, -⟩ := covers.unfinished raises isFinished
    cases recordMem
  obtain ⟨before, isLoaded⟩ := moves.suffix.trans (ready.suffix reader readerMem)
  have isLast : after.remaining.getLast remains ∈ (dataset.loaded reader.block.row).getLast? := by
    rw [← isLoaded, List.getLast?_append_of_ne_nil _ remains,
      List.getLast?_eq_getLast_of_ne_nil remains]
    rfl
  apply notLater _ isLast
  refine ⟨covers.notBelow _ (List.getLast_mem remains), fun eligible => ?_⟩
  obtain ⟨record, recordMem, -⟩ := covers.eligible _ (List.getLast_mem remains) eligible
  cases recordMem

/-- A scanned group returned its records, and no reader of it came to the end of what is loaded. -/
structure ScansGroup (dataset : Dataset Key Data Schema) (query : QueryExpression Key)
    (group : BlockGroup Key Schema) (opened : Block Key Schema → Prop)
    (result : List (List (ZipperMergeHeapRecord Key Data Schema)) ×
      List (FileReader Key Data Schema)) : Prop where
  zips : ∃ keys zipped, result.1 = zipped.map dedupeRecords ∧
    IsZipped (InRange dataset query fun key => group.keyInRange key) keys zipped
  ready : ∀ upper, group.keyMin ≤ upper → (∀ key, group.keyInRange key → key < upper) →
    IsReady dataset query upper result.2
  opened : ∀ reader ∈ result.2, opened reader.block
  notEnds : ∀ block ∈ group.blocks, ¬EndsIn dataset query group block

theorem scanGroup_spec (isOrder : ∀ blocks, (iterate blocks).Perm blocks)
    (group : BlockGroup Key Schema) (ready : IsReady dataset query group.keyMin readers)
    (fromDataset : ∀ block ∈ group.blocks, block ∈ dataset.blocks)
    (contained : ∀ source, InRange dataset query (fun key => group.keyInRange key) source →
      source.block ∈ group.blocks) {opened : Block Key Schema → Prop}
    (areOpened : ∀ reader ∈ readers, opened reader.block)
    (opens : ∀ block ∈ group.blocks, opened block) :
    Yields (∃ block, opened block ∧ EndsIn dataset query group block)
      (ScansGroup dataset query group opened)
      (scanGroup dataset.file iterate query readers group) := by
  have iterated : ∀ block, block ∈ iterate group.blocks.dedup ↔ block ∈ group.blocks := by
    intro block
    rw [(isOrder _).mem_iff, List.mem_dedup]
  obtain ⟨readyAll, openedAll, -, origin⟩ := ready.openReaders
    fun block blockMem => fromDataset block ((iterated block).mp blockMem)
  have openedGroup : ∀ block ∈ group.blocks, ∃ reader ∈
      openReaders dataset.file readers (iterate group.blocks.dedup), reader.block = block :=
    fun block blockMem => openedAll block ((iterated block).mpr blockMem)
  have isOpened : ∀ reader ∈ openReaders dataset.file readers (iterate group.blocks.dedup),
      opened reader.block := fun reader readerMem =>
    (origin reader readerMem).elim (areOpened reader)
      fun blockMem => opens _ ((iterated _).mp blockMem)
  have ends (mayEnd : MayEnd query group
      ⟨openReaders dataset.file readers (iterate group.blocks.dedup), []⟩) :
      ∃ block, opened block ∧ EndsIn dataset query group block := by
    obtain ⟨reader, readerMem, endsIn⟩ := readyAll.exists_endsIn mayEnd
    exact ⟨reader.block, isOpened reader readerMem, endsIn⟩
  unfold scanGroup
  refine ((isSeeded_foldlM (readyAll.isValid group)).imp ends fun _ seeds => seeds).bind ?_
  rintro seeded ⟨valid, pending, movesOn⟩
  refine ((zipperMergeSortedRecords_spec valid le_rfl).imp
    (fun mayEnd => ends (movesOn.mayEnd mayEnd)) fun _ merges => merges).bind ?_
  rintro ⟨zipped, state⟩ ⟨⟨keys, merged⟩, movesOnRest, seededLast, isEmpty⟩
  have movesOnAll := movesOn.trans movesOnRest
  refine ⟨⟨keys, zipped, rfl, ?_⟩, fun upper le before => readyAll.movesOn movesOnAll le before,
    fun reader readerMem => ?_, fun block blockMem => ?_⟩
  · exact merged.congr fun source =>
      (pending source).trans (readyAll.pending_iff openedGroup contained source)
  · obtain ⟨earlier, earlierMem, moves⟩ := movesOnAll.exists_before readerMem
    exact moves.block ▸ isOpened earlier earlierMem
  · obtain ⟨reader, readerMem, rfl⟩ := openedGroup block blockMem
    exact not_endsIn_of_seeded readyAll movesOnAll seededLast isEmpty readerMem

/-- The keys from the first to the last of the boundaries, of which there must be two. -/
def Spans (table : List Key) (key : Key) : Prop :=
  2 ≤ table.length ∧ (∀ lower ∈ table.head?, lower ≤ key) ∧ ∀ upper ∈ table.getLast?, key ≤ upper

theorem spans_cons_iff (index : BlockIntervalTree trees) {rest : List Key} {key : Key}
    (less : lower < upper)
    (upperLe : ∀ last ∈ (upper :: rest).getLast?, upper ≤ last) :
    Spans (lower :: upper :: rest) key ↔
      (index.blockGroup lower upper rest.isEmpty).keyInRange key ∨ Spans (upper :: rest) key := by
  rw [BlockGroup.keyInRange_iff]
  simp only [BlockIntervalTree.blockGroup]
  rcases rest with _ | ⟨next, rest⟩
  · simp [Spans, le_iff_lt_or_eq (a := key)]
  · simp only [Spans, List.length_cons, List.head?_cons, List.getLast?_cons_cons,
      Option.mem_some_iff, forall_eq', List.isEmpty_cons, Bool.false_eq_true, false_and, or_false]
    rw [List.getLast?_cons_cons] at upperLe
    constructor
    · rintro ⟨-, lowerLe, leLast⟩
      rcases lt_or_ge key upper with before | after
      · exact Or.inl ⟨lowerLe, before⟩
      · exact Or.inr ⟨by omega, after, leLast⟩
    · rintro (⟨lowerLe, before⟩ | ⟨-, after, leLast⟩)
      · exact ⟨by omega, lowerLe, fun last isLast => before.le.trans (upperLe last isLast)⟩
      · exact ⟨by omega, less.le.trans after, leLast⟩

/-- The scanned groups returned the loaded records between the boundaries of a table. -/
structure ScansGroups (dataset : Dataset Key Data Schema) (query : QueryExpression Key)
    (groups : List (BlockGroup Key Schema)) (table : List Key)
    (result : List (List (ZipperMergeHeapRecord Key Data Schema))) : Prop where
  zips : ∃ keys zipped, result = zipped.map dedupeRecords ∧
    IsZipped (InRange dataset query (Spans table)) keys zipped
  notEnds : ∀ group ∈ groups, ∀ block ∈ group.blocks, ¬EndsIn dataset query group block

/-- The groups of the boundaries are scanned one after the other. -/
theorem scanGroups_spec (isOrder : ∀ blocks, (iterate blocks).Perm blocks)
    (indexes : index.Indexes dataset.blocks)
    (nonempty : ∀ block ∈ dataset.blocks, block.row.keyMin < block.row.keyMax)
    {table : List Key} (ascending : table.Pairwise (· < ·))
    (isLast : (BlockIntervalTree.boundaryTable index.boundaries query.minKey
      query.maxKey).getLast? = table.getLast?)
    (ready : 2 ≤ table.length → ∀ lower ∈ table.head?, IsReady dataset query lower readers)
    {opened : Block Key Schema → Prop} (areOpened : ∀ reader ∈ readers, opened reader.block)
    (opens : ∀ group ∈ index.groupsFrom table, ∀ block ∈ group.blocks, opened block) :
    Yields (∃ group ∈ index.groupsFrom table, ∃ block, opened block ∧
        EndsIn dataset query group block)
      (ScansGroups dataset query (index.groupsFrom table) table)
      (scanGroups dataset.file iterate query readers (index.groupsFrom table)) := by
  induction table generalizing readers with
  | nil =>
      refine ⟨⟨[], [], rfl, IsZipped.nil fun source isSource => ?_⟩, by
        simp [BlockIntervalTree.groupsFrom]⟩
      simpa [Spans] using isSource.2.2.2
  | cons lower table ih =>
      rcases table with _ | ⟨upper, rest⟩
      · refine ⟨⟨[], [], rfl, IsZipped.nil fun source isSource => ?_⟩, by
          simp [BlockIntervalTree.groupsFrom]⟩
        simpa [Spans] using isSource.2.2.2
      · rw [List.getLast?_cons_cons] at isLast
        have less := (List.pairwise_cons.mp ascending).1 upper List.mem_cons_self
        have tailAscending := (List.pairwise_cons.mp ascending).2
        have upperLe : ∀ last ∈ (upper :: rest).getLast?, upper ≤ last := fun last isLast =>
          BlockIntervalTree.le_getLast_of_mem tailAscending List.mem_cons_self isLast
        have isEnd : rest.isEmpty → (BlockIntervalTree.boundaryTable index.boundaries
            query.minKey query.maxKey).getLast? = some upper := by
          intro isEmpty
          rw [isLast, List.isEmpty_iff.mp isEmpty]
          rfl
        have before : 2 ≤ (upper :: rest).length → ∀ key,
            (index.blockGroup lower upper rest.isEmpty).keyInRange key → key < upper := by
          intro length key inRange
          rcases rest with _ | ⟨next, rest⟩
          · simp at length
          · simpa [BlockIntervalTree.blockGroup] using (BlockGroup.keyInRange_iff.mp inRange).2
        have contained : ∀ source, InRange dataset query
            (fun key => (index.blockGroup lower upper rest.isEmpty).keyInRange key) source →
              source.block ∈ (index.blockGroup lower upper rest.isEmpty).blocks := by
          rintro source ⟨blockMem, rowMem, isMatch, inRange⟩
          obtain ⟨lowerLe, leUpper⟩ :=
            Dataset.key_mem blockMem ((Dataset.loaded_begins _).mem rowMem)
          exact indexes.mem_blocks_of_contains less isEnd blockMem (nonempty _ blockMem)
            lowerLe leUpper isMatch inRange
        have scansGroup := scanGroup_spec isOrder (index.blockGroup lower upper rest.isEmpty)
          (ready (by simp) lower rfl) (fun block blockMem => (indexes.mem_blocks.mp blockMem).1)
          contained areOpened (opens _ List.mem_cons_self)
        rw [BlockIntervalTree.groupsFrom, scanGroups]
        refine (scansGroup.imp (fun ends => ⟨_, List.mem_cons_self, ends⟩)
          fun _ scans => scans).bind ?_
        rintro ⟨records, moved⟩ scans
        refine ((ih tailAscending isLast (fun length first isFirst => ?_) scans.opened
          fun group groupMem => opens group (List.mem_cons_of_mem _ groupMem)).imp ?_
            fun _ rest => rest).bind ?_
        · cases isFirst
          exact scans.ready upper less.le (before length)
        · rintro ⟨group, groupMem, ends⟩
          exact ⟨group, List.mem_cons_of_mem _ groupMem, ends⟩
        · rintro others ⟨⟨laterKeys, laterZipped, rfl, isZippedLater⟩, notEnds⟩
          obtain ⟨keys, zipped, isRecords, isZipped⟩ := scans.zips
          dsimp only at isRecords
          subst isRecords
          refine ⟨⟨keys ++ laterKeys, zipped ++ laterZipped, (List.map_append ..).symm, ?_⟩, ?_⟩
          · apply isZipped.append isZippedLater
            · intro source
              simp only [InRange, spans_cons_iff index less upperLe, and_or_left]
            · intro left right isLeft isRight
              obtain ⟨length, upperLeRight, -⟩ := isRight.2.2.2
              exact (before length _ isLeft.2.2.2).trans_le (upperLeRight upper rfl)
          · rw [List.forall_mem_cons]
            exact ⟨scans.notEnds, notEnds⟩

omit [DecidableEq Schema] in
/-- Whatever the query asks for is between the boundaries. -/
theorem spans_of_inRange (indexes : index.Indexes dataset.blocks)
    (nonempty : ∀ block ∈ dataset.blocks, block.row.keyMin < block.row.keyMax)
    {source : Source Key Data Schema} (isSource : InRange dataset query (fun _ => True) source) :
    Spans (BlockIntervalTree.boundaryTable index.boundaries query.minKey query.maxKey)
      source.key := by
  obtain ⟨blockMem, rowMem, isMatch, -⟩ := isSource
  obtain ⟨lowerLe, leUpper⟩ := Dataset.key_mem blockMem ((Dataset.loaded_begins _).mem rowMem)
  have ascending := trees.ascending index.tree
  have surrounded := indexes.surrounded blockMem (nonempty _ blockMem) isMatch lowerLe leUpper
  obtain ⟨lower, upper, rest, isTable, below⟩ :=
    BlockIntervalTree.exists_boundaryTable_cons ascending surrounded
  refine ⟨by simp [isTable], by simpa [isTable] using below, fun last isLast => ?_⟩
  rcases BlockIntervalTree.getLast_boundaryTable ascending isLast with isLast | notReached
  · have lastMem : source.block.row.keyMax ∈ index.boundaries :=
      (trees.mem_boundaries _ _).mpr ⟨_, (indexes.tree _).mpr ⟨source.block, blockMem, rfl⟩,
        Or.inr rfl⟩
    exact leUpper.trans (BlockIntervalTree.le_getLast_of_mem ascending lastMem isLast)
  · exact (notReached _ isMatch).le

/-- The first and last keys of all files. -/
def Dataset.bounds (dataset : Dataset Key Data Schema) : List Key :=
  dataset.blocks.flatMap fun block => [block.row.keyMin, block.row.keyMax]

/--
The file is in some block group, or the query does not begin after it. The group before the
query has the files that end where it begins.
-/
def Dataset.IsOpened (dataset : Dataset Key Data Schema) (query : QueryExpression Key)
    (block : Block Key Schema) : Prop :=
  ∀ range ∈ query.keyRange, block.row.keyMax < range.1 →
    (∃ bound ∈ dataset.bounds, range.1 ≤ bound) ∧
      ∀ bound ∈ dataset.bounds, bound < range.1 → bound ≤ block.row.keyMax

/-- The reader of the file comes to the end of what is loaded, and raises there. -/
structure Dataset.RaisesAtEnd (dataset : Dataset Key Data Schema) (query : QueryExpression Key)
    (block : Block Key Schema) : Prop where
  raisesAtEnd : (dataset.file block.row).raisesAtEnd
  isOpened : dataset.IsOpened query block
  reaches : ∀ range ∈ query.keyRange, ∀ last ∈ (dataset.loaded block.row).getLast?,
    last.1 ≤ range.2

omit [DecidableEq Schema] in
theorem mem_boundaries_iff (indexes : index.Indexes dataset.blocks) {key : Key} :
    key ∈ index.boundaries ↔ key ∈ dataset.bounds := by
  simp only [trees.mem_boundaries, Dataset.bounds, List.mem_flatMap, List.mem_cons,
    List.not_mem_nil, or_false, indexes.tree]
  constructor
  · rintro ⟨interval, ⟨block, blockMem, rfl⟩, isBound⟩
    exact ⟨block, blockMem, isBound⟩
  · rintro ⟨block, blockMem, isBound⟩
    exact ⟨_, ⟨block, blockMem, rfl⟩, isBound⟩

/-- The groups that the query is scanned in. -/
def groupsOf (index : BlockIntervalTree trees) (query : QueryExpression Key) :
    List (BlockGroup Key Schema) :=
  index.groupsFrom
    (BlockIntervalTree.boundaryTable index.boundaries query.minKey query.maxKey)

theorem isNeighbour_of_mem_groupsOf {group : BlockGroup Key Schema}
    (groupMem : group ∈ groupsOf index query) :
    ∃ lower upper inclusive, group = index.blockGroup lower upper inclusive ∧
      BlockIntervalTree.IsNeighbour index.boundaries query lower upper := by
  obtain ⟨number, lower, upper, inclusive, isLower, isUpper, isGroup⟩ :=
    BlockIntervalTree.exists_neighbours_of_mem_groupsFrom groupMem
  exact ⟨lower, upper, inclusive, isGroup, BlockIntervalTree.isNeighbour_of_boundaryTable
    (trees.ascending index.tree) isLower isUpper⟩

/-- Readers raise only if they may come to the end of what is loaded. -/
theorem raisesAtEnd_of_endsIn (indexes : index.Indexes dataset.blocks)
    {block : Block Key Schema} {openedIn group : BlockGroup Key Schema}
    (openedMem : openedIn ∈ groupsOf index query) (blockMem : block ∈ openedIn.blocks)
    (groupMem : group ∈ groupsOf index query) (ends : EndsIn dataset query group block) :
    block ∈ dataset.blocks ∧ dataset.RaisesAtEnd query block := by
  obtain ⟨lower, upper, inclusive, rfl, isNeighbour⟩ := isNeighbour_of_mem_groupsOf openedMem
  obtain ⟨fromDataset, inGroup⟩ := indexes.mem_blocks.mp blockMem
  refine ⟨fromDataset, ends.1, ?_, ?_⟩
  · intro range isRange endsBefore
    have startsAt := isNeighbour.startsAt range isRange
    have lastMem : block.row.keyMax ∈ index.boundaries :=
      (mem_boundaries_iff indexes).mpr (List.mem_flatMap.mpr ⟨block, fromDataset, by simp⟩)
    have lowerEq : block.row.keyMax = lower := by
      rcases inGroup with ⟨-, greater⟩ | same
      · exact absurd (startsAt.2 _ lastMem endsBefore) (not_le.mpr greater)
      · exact same
    rw [lowerEq]
    refine ⟨⟨upper, (mem_boundaries_iff indexes).mp isNeighbour.upperMem, startsAt.1⟩, ?_⟩
    exact fun bound boundMem => startsAt.2 bound ((mem_boundaries_iff indexes).mpr boundMem)
  · intro range isRange last isLast
    by_contra beyond
    apply ends.2 last isLast
    obtain ⟨groupLower, groupUpper, groupInclusive, rfl, groupNeighbour⟩ :=
      isNeighbour_of_mem_groupsOf groupMem
    have lowerLe := (groupNeighbour.reaches range isRange).trans (not_le.mp beyond).le
    have firstLe := (query.ascending range isRange).trans (not_le.mp beyond).le
    obtain ⟨first, final⟩ := range
    have isRange : query.keyRange = some (first, final) := isRange
    constructor
    · have notBelowQuery : query.belowQueryRange last.1 = false := by
        simp only [QueryExpression.belowQueryRange, isRange]
        exact decide_eq_false (not_lt.mpr firstLe)
      simp [isBelow, BlockGroup.keyBelowRange, BlockIntervalTree.blockGroup, notBelowQuery,
        not_lt.mpr lowerLe]
    · rintro ⟨isMatch, -⟩
      exact beyond ((QueryExpression.matchesQuery_of_some isRange).mp isMatch).2

/-- If a reader comes to the end of what is loaded, it does so in a group of its file. -/
theorem Dataset.RaisesAtEnd.exists_group (indexes : index.Indexes dataset.blocks)
    (nonempty : ∀ block ∈ dataset.blocks, block.row.keyMin < block.row.keyMax)
    {block : Block Key Schema} (blockMem : block ∈ dataset.blocks)
    (raises : dataset.RaisesAtEnd query block) :
    ∃ group ∈ groupsOf index query, block ∈ group.blocks ∧ EndsIn dataset query group block := by
  have ascending := trees.ascending index.tree
  obtain ⟨last, isLast⟩ : ∃ last, (dataset.loaded block.row).getLast? = some last :=
    ⟨_, List.getLast?_eq_getLast_of_ne_nil (dataset.loads block blockMem)⟩
  have lastMem : last ∈ dataset.records block.row :=
    (Dataset.loaded_begins _).mem (List.mem_of_getLast? isLast)
  obtain ⟨lowerLe, leUpper⟩ := Dataset.key_mem blockMem lastMem
  have endsIn {group : BlockGroup Key Schema} (notLater : ¬Later query group last.1) :
      EndsIn dataset query group block := by
    refine ⟨raises.raisesAtEnd, fun other isOther => ?_⟩
    rw [Option.mem_def, isLast, Option.some.injEq] at isOther
    exact isOther ▸ notLater
  by_cases beginsAfter : ∃ range ∈ query.keyRange, block.row.keyMax < range.1
  · obtain ⟨⟨first, final⟩, isRange, less⟩ := beginsAfter
    obtain ⟨⟨bound, boundMem, firstLe⟩, greatest⟩ := raises.isOpened _ isRange less
    have keyMaxMem : block.row.keyMax ∈ index.boundaries :=
      (mem_boundaries_iff indexes).mpr (List.mem_flatMap.mpr ⟨block, blockMem, by simp⟩)
    obtain ⟨upper, rest, isTable⟩ := BlockIntervalTree.exists_boundaryTable_eq_cons ascending
      isRange keyMaxMem less
      (fun key keyMem => greatest key ((mem_boundaries_iff indexes).mp keyMem))
      ⟨bound, (mem_boundaries_iff indexes).mpr boundMem, firstLe⟩
    refine ⟨index.blockGroup block.row.keyMax upper rest.isEmpty, ?_, ?_, endsIn ?_⟩
    · rw [groupsOf, isTable]
      exact List.mem_cons_self
    · exact indexes.mem_blocks.mpr ⟨blockMem, Or.inr rfl⟩
    · rintro ⟨notBelow, -⟩
      have isRange : query.keyRange = some (first, final) := isRange
      apply notBelow
      simp [isBelow, QueryExpression.belowQueryRange, isRange, leUpper.trans_lt less]
  · -- The first key from the last loaded one on that the query asks for is one of the file.
    push Not at beginsAfter
    obtain ⟨key, isRequested, lastLe, keyLe, isEligible⟩ : ∃ key, query.matchesQuery key ∧
        last.1 ≤ key ∧ key ≤ block.row.keyMax ∧
          (¬query.belowQueryRange last.1 → key = last.1) := by
      rcases hasRange : query.keyRange with _ | ⟨first, final⟩
      · refine ⟨last.1, ?_, le_rfl, leUpper, fun _ => rfl⟩
        simp [QueryExpression.matchesQuery, hasRange]
      · have reaches := raises.reaches _ hasRange last isLast
        refine ⟨max first last.1, ?_, le_max_right _ _, max_le (beginsAfter _ hasRange) leUpper,
          fun notBelow => ?_⟩
        · exact (QueryExpression.matchesQuery_of_some hasRange).mpr
            ⟨le_max_left _ _, max_le (query.ascending _ hasRange) reaches⟩
        · simp only [QueryExpression.belowQueryRange, hasRange, gt_iff_lt, decide_eq_true_eq,
            not_lt] at notBelow
          exact max_eq_right notBelow
    have inOrder : ∀ lower ∈ query.minKey, ∀ upper ∈ query.maxKey, lower ≤ upper := by
      intro lower isLower upper isUpper
      obtain ⟨range, isRange, rfl⟩ := Option.map_eq_some_iff.mp isLower
      obtain ⟨_, isRange', rfl⟩ := Option.map_eq_some_iff.mp isUpper
      cases isRange.symm.trans isRange'
      exact query.ascending range isRange
    have requested : BlockIntervalTree.Requested query.minKey query.maxKey key := by
      rcases hasRange : query.keyRange with _ | ⟨first, final⟩
      · simp [BlockIntervalTree.Requested, QueryExpression.minKey, QueryExpression.maxKey, hasRange]
      · have bounds := (QueryExpression.matchesQuery_of_some hasRange).mp isRequested
        simpa [BlockIntervalTree.Requested, QueryExpression.minKey, QueryExpression.maxKey,
          hasRange] using bounds
    obtain ⟨before, group, after, isGroups, inRange, -, contains⟩ :=
      (indexes.indexesKeys nonempty inOrder).unique key requested
        ⟨block, blockMem, lowerLe.trans lastLe, keyLe⟩
    refine ⟨group, ?_, contains block blockMem (lowerLe.trans lastLe) keyLe, endsIn ?_⟩
    · rw [groupsOf, isGroups]
      simp
    · rintro ⟨notBelow, notEligible⟩
      simp only [isBelow, Bool.or_eq_true, not_or] at notBelow
      have isLastKey := isEligible notBelow.2
      subst isLastKey
      exact notEligible ⟨isRequested, inRange⟩

/-- If every file has at least two keys, all loaded records that are asked for are zipped. -/
theorem scan_spec (trees : IntervalTrees Key (Block Key Schema)) (query : QueryExpression Key)
    (isOrder : ∀ blocks, (iterate blocks).Perm blocks)
    (nonempty : ∀ block ∈ dataset.blocks, block.row.keyMin < block.row.keyMax) :
    Yields (∃ block ∈ dataset.blocks, dataset.RaisesAtEnd query block)
      (fun table => (∃ keys zipped, table = zipped.map dedupeRecords ∧
        IsZipped (InRange dataset query fun _ => True) keys zipped) ∧
          ∀ block ∈ dataset.blocks, ¬dataset.RaisesAtEnd query block)
      (scan dataset.file trees iterate query dataset.manifests) := by
  obtain ⟨index, isIndex, indexes⟩ := BlockIntervalTree.exists_addAllRows trees
    fun manifest manifestMem row rowMem =>
      nonempty ⟨row, manifest.2⟩ (List.mem_flatMap.mpr
        ⟨manifest, manifestMem, List.mem_map_of_mem rowMem⟩)
  have ascending : (BlockIntervalTree.boundaryTable index.boundaries query.minKey
      query.maxKey).Pairwise (· < ·) :=
    BlockIntervalTree.pairwise_boundaryTable (trees.ascending index.tree)
  have ready : ∀ lower, IsReady dataset query lower [] :=
    fun lower => ⟨by simp, by simp, by simp, by simp⟩
  have accepted : ¬∃ lower ∈ query.minKey, ∃ upper ∈ query.maxKey, lower > upper := by
    rintro ⟨lower, isLower, upper, isUpper, greater⟩
    obtain ⟨range, isRange, rfl⟩ := Option.map_eq_some_iff.mp isLower
    obtain ⟨_, isRange', rfl⟩ := Option.map_eq_some_iff.mp isUpper
    cases isRange.symm.trans isRange'
    exact absurd greater (not_lt.mpr (query.ascending range isRange))
  have scans := @scanGroups_spec _ _ _ _ _ _ _ _ _ _ _ isOrder indexes nonempty _ ascending rfl
    (fun _ lower _ => ready lower)
    (fun block => ∃ group ∈ groupsOf index query, block ∈ group.blocks) (by simp)
    fun group groupMem block blockMem => ⟨group, groupMem, blockMem⟩
  have isScan : scan dataset.file trees iterate query dataset.manifests =
      scanGroups dataset.file iterate query [] (groupsOf index query) := by
    simp only [scan, isIndex, BlockIntervalTree.getSortedBlockGroups, if_neg accepted]
    exact congrArg _ (BlockIntervalTree.map_zip_eq_groupsFrom ascending)
  rw [isScan]
  refine Yields.imp scans ?_ ?_
  · rintro ⟨group, groupMem, block, ⟨openedIn, openedMem, blockMem⟩, ends⟩
    exact ⟨block, raisesAtEnd_of_endsIn indexes openedMem blockMem groupMem ends⟩
  · rintro table ⟨⟨keys, zipped, isTable, isZipped⟩, notEnds⟩
    refine ⟨⟨keys, zipped, isTable, isZipped.congr fun source => ?_⟩,
      fun block blockMem raises => ?_⟩
    · exact ⟨fun isSource => ⟨isSource.1, isSource.2.1, isSource.2.2.1, trivial⟩, fun isSource =>
        ⟨isSource.1, isSource.2.1, isSource.2.2.1, spans_of_inRange indexes nonempty isSource⟩⟩
    · obtain ⟨group, groupMem, inGroup, ends⟩ := raises.exists_group indexes nonempty blockMem
      exact notEnds group groupMem block inGroup ends

end Groups

section Dedupe

variable {records : List (ZipperMergeHeapRecord Key Data Schema)}
  {record : ZipperMergeHeapRecord Key Data Schema}

omit [LinearOrder Key] in
theorem mem_dedupeRecords :
    record ∈ dedupeRecords records ↔
      ∃ group ∈ groupInto (fun record => record.block.context.schema) records,
        greatestBy sortCriteria group.2 = some record := by
  simp only [dedupeRecords, List.mem_insertionSort, List.mem_filterMap]

omit [LinearOrder Key] in
/-- What is kept is the greatest of the records of its field group. -/
theorem le_of_mem_dedupeRecords (recordMem : record ∈ dedupeRecords records) :
    record ∈ records ∧ ∀ other ∈ records,
      other.block.context.schema = record.block.context.schema →
        sortCriteria other ≤ sortCriteria record := by
  obtain ⟨group, groupMem, isGreatest⟩ := mem_dedupeRecords.mp recordMem
  obtain ⟨-, isGroup⟩ := mem_groupInto.mp groupMem
  obtain ⟨inGroup, bound⟩ := greatestBy_eq_some isGreatest
  rw [isGroup] at inGroup bound
  obtain ⟨inRecords, isSchema⟩ := List.mem_filter.mp inGroup
  refine ⟨inRecords, fun other otherMem sameSchema => bound other ?_⟩
  exact List.mem_filter.mpr ⟨otherMem, by simpa [sameSchema] using isSchema⟩

omit [LinearOrder Key] in
/-- Something is kept for the field group of every record. -/
theorem exists_mem_dedupeRecords (recordMem : record ∈ records) :
    ∃ kept ∈ dedupeRecords records,
      kept.block.context.schema = record.block.context.schema := by
  let schema := record.block.context.schema
  let group := records.filter fun other => other.block.context.schema = schema
  have groupMem : (schema, group) ∈ groupInto (fun record => record.block.context.schema) records :=
    mem_groupInto.mpr ⟨⟨record, recordMem, rfl⟩, rfl⟩
  have nonempty : group ≠ [] :=
    List.ne_nil_of_mem (List.mem_filter.mpr ⟨recordMem, by simp [schema]⟩)
  have isSome : (greatestBy sortCriteria group).isSome := greatestBy_isSome nonempty
  obtain ⟨kept, isKept⟩ := Option.isSome_iff_exists.mp isSome
  refine ⟨kept, mem_dedupeRecords.mpr ⟨_, groupMem, isKept⟩, ?_⟩
  exact of_decide_eq_true (List.mem_filter.mp (greatestBy_eq_some isKept).1).2

omit [LinearOrder Key] in
theorem nodup_map_dedupeRecords (records : List (ZipperMergeHeapRecord Key Data Schema)) :
    ((dedupeRecords records).map fun record => record.block.context.schema).Nodup := by
  let schema (record : ZipperMergeHeapRecord Key Data Schema) := record.block.context.schema
  have distinct : ((groupInto schema records).map Prod.fst).Nodup := by
    rw [map_fst_groupInto]
    exact nodup_distinctKeys
  have sorted := (List.perm_insertionSort (fun left right => sortCriteria left ≤ sortCriteria right)
    ((groupInto schema records).filterMap fun group => greatestBy sortCriteria group.2)).map schema
  apply sorted.nodup_iff.mpr
  rw [List.Nodup, List.pairwise_map, List.pairwise_filterMap]
  apply (List.pairwise_map.mp distinct).imp_of_mem
  intro left right leftMem rightMem differ first isFirst second isSecond
  have isSchema : ∀ {group}, group ∈ groupInto schema records → ∀ {kept},
      greatestBy sortCriteria group.2 = some kept → schema kept = group.1 := by
    intro group groupMem kept isKept
    have keptMem := (greatestBy_eq_some isKept).1
    rw [(mem_groupInto.mp groupMem).2] at keptMem
    exact of_decide_eq_true (List.mem_filter.mp keptMem).2
  rw [isSchema leftMem isFirst, isSchema rightMem isSecond]
  exact differ

end Dedupe

section MergedTable

/--
The row of a key: for each field group that has the key, its record of the lowest level
and, within the level, of the newest stream position.
-/
structure IsMergedRow (blocks : List (Block Key Schema))
    (records : SSTableRow Key → List (Key × Data)) (key : Key)
    (row : List (ZipperMergeHeapRecord Key Data Schema)) : Prop where
  distinct : (row.map fun record => record.block.context.schema).Nodup
  isRecord : ∀ record ∈ row, record.key = key ∧ record.block ∈ blocks ∧
    (key, record.data) ∈ records record.block.row
  newest : ∀ block ∈ blocks, ∀ data, (key, data) ∈ records block.row →
    ∃ record ∈ row, record.block.context.schema = block.context.schema ∧
      (record.block.context.level < block.context.level ∨
        record.block.context.level = block.context.level ∧
          block.context.streamPosition ≤ record.block.context.streamPosition)

/-- A row for each key that occurs and that the query asks for, in ascending order. -/
structure IsMergedTable (blocks : List (Block Key Schema))
    (records : SSTableRow Key → List (Key × Data)) (query : QueryExpression Key)
    (table : List (List (ZipperMergeHeapRecord Key Data Schema))) : Prop where
  rows : ∃ keys : List Key, keys.Pairwise (· < ·) ∧
    (∀ key, key ∈ keys ↔ query.matchesQuery key ∧
      ∃ block ∈ blocks, ∃ data, (key, data) ∈ records block.row) ∧
    List.Forall₂ (IsMergedRow blocks records) keys table

variable {dataset : Dataset Key Data Schema} {query : QueryExpression Key}

/--
A loaded record of the field group has the key, and takes precedence over the records of
the block.
-/
def Dataset.Overwrites (dataset : Dataset Key Data Schema) (block : Block Key Schema)
    (key : Key) : Prop :=
  ∃ other ∈ dataset.blocks, ∃ data, (key, data) ∈ dataset.loaded other.row ∧
    other.context.schema = block.context.schema ∧
      (other.context.level < block.context.level ∨
        other.context.level = block.context.level ∧
          block.context.streamPosition ≤ other.context.streamPosition)

theorem isMergedRow_dedupeRecords {key : Key}
    {records : List (ZipperMergeHeapRecord Key Data Schema)} (isMatch : query.matchesQuery key)
    (isMerged : ∀ source, source ∈ records.map ZipperMergeHeapRecord.source ↔
      InRange dataset query (fun _ => True) source ∧ source.key = key) :
    IsMergedRow dataset.blocks dataset.loaded key (dedupeRecords records) where
  distinct := nodup_map_dedupeRecords records
  isRecord record recordMem := by
    have inRecords := (le_of_mem_dedupeRecords recordMem).1
    obtain ⟨⟨blockMem, rowMem, -, -⟩, isKey⟩ :=
      (isMerged record.source).mp (List.mem_map_of_mem inRecords)
    exact ⟨isKey, blockMem, isKey ▸ rowMem⟩
  newest block blockMem data rowMem := by
    have isSource := (isMerged ⟨key, data, block⟩).mpr ⟨⟨blockMem, rowMem, isMatch, trivial⟩, rfl⟩
    obtain ⟨record, recordMem, isRecord⟩ := List.mem_map.mp isSource
    obtain ⟨kept, keptMem, sameSchema⟩ := exists_mem_dedupeRecords recordMem
    have le := (le_of_mem_dedupeRecords keptMem).2 record recordMem sameSchema.symm
    have isBlock : record.block = block := congrArg Source.block isRecord
    rw [sortCriteria, sortCriteria, Prod.Lex.toLex_le_toLex, isBlock, neg_lt_neg_iff,
      neg_inj] at le
    rw [isBlock] at sameSchema
    exact ⟨kept, keptMem, sameSchema, le.imp_right fun same => ⟨same.1.symm, same.2⟩⟩

theorem IsZipped.isMergedTable {keys : List Key}
    {zipped : List (List (ZipperMergeHeapRecord Key Data Schema))}
    (isZipped : IsZipped (InRange dataset query fun _ => True) keys zipped) :
    IsMergedTable dataset.blocks dataset.loaded query (zipped.map dedupeRecords) := by
  have isPresent : ∀ key ∈ keys, ∃ source, InRange dataset query (fun _ => True) source ∧
      source.key = key := fun key keyMem => isZipped.exists_of_mem keyMem
  refine ⟨keys, isZipped.ascending, fun key => ?_, ?_⟩
  · constructor
    · intro keyMem
      obtain ⟨source, ⟨blockMem, rowMem, isMatch, -⟩, rfl⟩ := isPresent key keyMem
      exact ⟨isMatch, source.block, blockMem, source.data, rowMem⟩
    · rintro ⟨isMatch, block, blockMem, data, rowMem⟩
      exact isZipped.complete ⟨key, data, block⟩ ⟨blockMem, rowMem, isMatch, trivial⟩
  · rw [List.forall₂_map_right_iff]
    apply List.Forall₂.imp _ isZipped.merged
    intro key records isMerged
    obtain ⟨record, recordMem⟩ := List.exists_mem_of_ne_nil records isMerged.1
    obtain ⟨⟨-, -, isMatch, -⟩, rfl⟩ :=
      (isMerged.2 record.source).mp (List.mem_map_of_mem recordMem)
    exact isMergedRow_dedupeRecords isMatch isMerged.2

omit [DecidableEq Schema] in
theorem mem_records_iff {block : Block Key Schema} {record : Key × Data} :
    record ∈ dataset.records block.row ↔
      record ∈ dataset.loaded block.row ∨ record ∈ (dataset.file block.row).unloaded :=
  DataFile.mem_batches_iff

omit [DecidableEq Schema] in
/-- What is loaded makes the rows of all records, if the others are overwritten. -/
theorem IsMergedRow.of_loaded {key : Key} {row : List (ZipperMergeHeapRecord Key Data Schema)}
    (merged : IsMergedRow dataset.blocks dataset.loaded key row)
    (overwritten : ∀ block ∈ dataset.blocks, ∀ data,
      (key, data) ∈ (dataset.file block.row).unloaded → dataset.Overwrites block key) :
    IsMergedRow dataset.blocks dataset.records key row where
  distinct := merged.distinct
  isRecord record recordMem := by
    obtain ⟨isKey, blockMem, isLoaded⟩ := merged.isRecord record recordMem
    exact ⟨isKey, blockMem, (Dataset.loaded_begins _).mem isLoaded⟩
  newest block blockMem data rowMem := by
    rcases mem_records_iff.mp rowMem with isLoaded | isUnloaded
    · exact merged.newest block blockMem data isLoaded
    · obtain ⟨other, otherMem, otherData, isLoaded, sameSchema, precedes⟩ :=
        overwritten block blockMem data isUnloaded
      obtain ⟨record, recordMem, isSchema, newest⟩ :=
        merged.newest other otherMem otherData isLoaded
      refine ⟨record, recordMem, isSchema.trans sameSchema, ?_⟩
      omega

omit [DecidableEq Schema] in
/--
What is loaded makes the merged table of all records if and only if every other record that
is asked for is overwritten.
-/
theorem IsMergedTable.records_iff {table : List (List (ZipperMergeHeapRecord Key Data Schema))}
    (merged : IsMergedTable dataset.blocks dataset.loaded query table) :
    IsMergedTable dataset.blocks dataset.records query table ↔
      ∀ block ∈ dataset.blocks, ∀ record ∈ (dataset.file block.row).unloaded,
        query.matchesQuery record.1 → dataset.Overwrites block record.1 := by
  obtain ⟨loadedKeys, ascending, areLoaded, rows⟩ := merged
  constructor
  · rintro ⟨keys, -, areKeys, allRows⟩ block blockMem ⟨key, data⟩ isUnloaded isMatch
    have rowMem := mem_records_iff.mpr (Or.inr isUnloaded)
    have keyMem := (areKeys key).mpr ⟨isMatch, block, blockMem, data, rowMem⟩
    obtain ⟨row, inTable, isRow⟩ := exists_of_forall₂ allRows keyMem
    obtain ⟨record, recordMem, sameSchema, precedes⟩ := isRow.newest block blockMem data rowMem
    obtain ⟨loadedKey, -, isLoadedRow⟩ := exists_of_forall₂ rows.flip inTable
    obtain ⟨isLoadedKey, otherMem, isLoaded⟩ := isLoadedRow.isRecord record recordMem
    have sameKey := (isRow.isRecord record recordMem).1
    rw [← isLoadedKey, sameKey] at isLoaded
    exact ⟨record.block, otherMem, record.data, isLoaded, sameSchema, precedes⟩
  · intro overwritten
    refine ⟨loadedKeys, ascending, fun key => ?_, ?_⟩
    · rw [areLoaded]
      apply and_congr_right
      intro isMatch
      constructor
      · rintro ⟨block, blockMem, data, isLoaded⟩
        exact ⟨block, blockMem, data, (Dataset.loaded_begins _).mem isLoaded⟩
      · rintro ⟨block, blockMem, data, rowMem⟩
        rcases mem_records_iff.mp rowMem with isLoaded | isUnloaded
        · exact ⟨block, blockMem, data, isLoaded⟩
        · obtain ⟨other, otherMem, otherData, isLoaded, -⟩ :=
            overwritten block blockMem _ isUnloaded isMatch
          exact ⟨other, otherMem, otherData, isLoaded⟩
    · refine (List.forall₂_iff_get.mpr ⟨rows.length_eq, fun index isKey isRow => ?_⟩)
      have isMatch := ((areLoaded _).mp (List.get_mem loadedKeys ⟨index, isKey⟩)).1
      exact ((List.forall₂_iff_get.mp rows).2 index isKey isRow).of_loaded
        fun block blockMem data isUnloaded => overwritten block blockMem _ isUnloaded isMatch

/--
The scan returns the merged table if and only if no file has a single key, no reader comes
to the end of what is loaded and raises there, and all records that the query asks for and
that are not loaded are overwritten. The tree rejects the interval of a file with a single
key, and the scan raises before it reads anything.
-/
theorem scan_isMergedTable_iff (trees : IntervalTrees Key (Block Key Schema))
    (dataset : Dataset Key Data Schema) (query : QueryExpression Key)
    {iterate : List (Block Key Schema) → List (Block Key Schema)}
    (isOrder : ∀ blocks, (iterate blocks).Perm blocks) :
    (∃ table, scan dataset.file trees iterate query dataset.manifests = .ok table ∧
      IsMergedTable dataset.blocks dataset.records query table) ↔
        (∀ block ∈ dataset.blocks, block.row.keyMin < block.row.keyMax) ∧
        (∀ block ∈ dataset.blocks, ¬dataset.RaisesAtEnd query block) ∧
        ∀ block ∈ dataset.blocks, ∀ record ∈ (dataset.file block.row).unloaded,
          query.matchesQuery record.1 → dataset.Overwrites block record.1 := by
  constructor
  · rintro ⟨table, scanned, merged⟩
    have nonempty : ∀ block ∈ dataset.blocks, block.row.keyMin < block.row.keyMax := by
      intro block blockMem
      have built := scanned
      simp only [scan, except_bind_eq_ok] at built
      obtain ⟨index, isIndex, -⟩ := built
      obtain ⟨manifest, manifestMem, blockMem⟩ := List.mem_flatMap.mp blockMem
      obtain ⟨row, rowMem, rfl⟩ := List.mem_map.mp blockMem
      exact BlockIntervalTree.keyMin_lt_of_addAllRows isIndex manifest manifestMem row rowMem
    obtain ⟨⟨keys, zipped, rfl, isZipped⟩, noneRaises⟩ :=
      (scan_spec trees query isOrder nonempty).of_eq_ok scanned
    exact ⟨nonempty, noneRaises, isZipped.isMergedTable.records_iff.mp merged⟩
  · rintro ⟨nonempty, noneRaises, overwritten⟩
    obtain ⟨table, scanned, ⟨keys, zipped, rfl, isZipped⟩, -⟩ :=
      (scan_spec trees query isOrder nonempty).exists_ok (by simpa using noneRaises)
    exact ⟨_, scanned, isZipped.isMergedTable.records_iff.mpr overwritten⟩

/--
Two files of one field group, of which the second was written later. What is left in the
stream of the first one is overwritten, and the query ends before the other batch of the
second one.
-/
def overwritten : Dataset ℕ ℕ ℕ where
  manifests := [([⟨1, 3, 0⟩], ⟨0, 1, 0⟩), ([⟨3, 9, 1⟩], ⟨0, 2, 0⟩)]
  file row :=
    if row.uri = 0 then .feather [[(1, 10)], [(3, 30)]]
    else .parquet [[(3, 31), (4, 40)], [(6, 60)]] [[(9, 90)]]
  distinct := by decide
  nonempty := by decide
  loads := by decide
  sorted := by decide
  first := by decide
  last := by decide

theorem scan_isMergedTable_iff_overwritten :
    (∀ blocks : List (Block ℕ ℕ), (id blocks).Perm blocks) ∧
      ∃ table, scan overwritten.file (listTrees ℕ (Block ℕ ℕ)) id (.between 2 5)
          overwritten.manifests = .ok table ∧
        IsMergedTable overwritten.blocks overwritten.records (.between 2 5) table := by
  refine ⟨fun blocks => List.Perm.refl blocks,
    (scan_isMergedTable_iff (listTrees ℕ (Block ℕ ℕ)) overwritten (.between 2 5)
      fun blocks => List.Perm.refl blocks).mpr ⟨by decide, ?_, ?_⟩⟩
  · rintro block blockMem ⟨raises, -, reaches⟩
    have ends := reaches (2, 5) rfl
    revert raises ends
    revert block
    decide
  · intro block blockMem record isUnloaded isMatch
    refine ⟨⟨⟨3, 9, 1⟩, ⟨0, 2, 0⟩⟩, by decide, 31, ?_⟩
    revert record
    revert block
    decide

/-- A file with one record. -/
def singleKey : Dataset ℕ ℕ ℕ where
  manifests := [([⟨1, 1, 0⟩], ⟨0, 1, 0⟩)]
  file _ := .feather [[(1, 10)]]
  distinct := by decide
  nonempty := by decide
  loads := by decide
  sorted := by decide
  first := by decide
  last := by decide

theorem not_scan_isMergedTable :
    ¬∃ table, scan singleKey.file (listTrees ℕ (Block ℕ ℕ)) id .new singleKey.manifests =
        .ok table ∧
      IsMergedTable singleKey.blocks singleKey.records .new table := by
  rintro ⟨table, scanned, -⟩
  have raised : scan singleKey.file (listTrees ℕ (Block ℕ ℕ)) id .new singleKey.manifests =
    .error .valueError := rfl
  rw [raised] at scanned
  cases scanned

end MergedTable

end Deltacat.Experimental.Rivulet
