import Deltacat.Experimental.Rivulet.QueryExpression
import Deltacat.Library.Grouping
import Deltacat.Library.Procedure
import Mathlib.Data.List.Sort
import Mathlib.Data.List.TakeWhile

/-!
# Block groups

The rows of all SST files are put into an interval tree. At the boundaries of the
intervals the set of files that may have a key changes, so that the range between
two neighbouring boundaries, with the files of the intervals that overlap it, can
be scanned as a unit, a block group.

The intervals of the library do not contain their end and must not be empty. A
file with a single key can therefore not be added (`keyMin_lt_of_addAllRows`). In the
block groups the missing ends are made up for: every file that has a key which a
query asks for is in the block group of that key (`mem_blocks_of_contains`).
-/

namespace Deltacat.Experimental.Rivulet

open Deltacat.Library

universe u

/--
A row of an SST file: the first and the last key of a data file. Data files are named by
clock readings.
-/
structure SSTableRow (Key : Type u) where
  keyMin : Key
  keyMax : Key
  uri : ℕ
  deriving DecidableEq

/-- Where a manifest stands in the tree of manifests. -/
structure DeltaContext (Schema : Type u) where
  schema : Schema
  streamPosition : ℤ
  level : ℤ
  deriving DecidableEq

structure Block (Key Schema : Type u) where
  row : SSTableRow Key
  context : DeltaContext Schema
  deriving DecidableEq

/-- An interval that contains `first` but not `last`. -/
structure Interval (Key Data : Type u) where
  first : Key
  last : Key
  data : Data
  deriving DecidableEq

/--
What is used of the `intervaltree` library. A tree is a set of intervals, which `Holds` is about.
Empty intervals are rejected.
-/
structure IntervalTrees (Key Data : Type u) [LinearOrder Key] where
  Tree : Type u
  new : Tree
  add : Tree → Interval Key Data → Except Error Tree
  /-- The ends of all intervals, in order. -/
  boundaries : Tree → List Key
  overlap : Tree → Key → Key → List (Interval Key Data)
  Holds : Tree → Interval Key Data → Prop
  not_holds_new : ∀ interval, ¬Holds new interval
  add_empty : ∀ tree {interval}, interval.last ≤ interval.first →
    add tree interval = .error .valueError
  add_nonempty : ∀ tree {interval}, interval.first < interval.last →
    ∃ added, add tree interval = .ok added ∧
      ∀ other, Holds added other ↔ other = interval ∨ Holds tree other
  mem_boundaries : ∀ tree key, key ∈ boundaries tree ↔
    ∃ interval, Holds tree interval ∧ (key = interval.first ∨ key = interval.last)
  ascending : ∀ tree, (boundaries tree).Pairwise (· < ·)
  mem_overlap : ∀ tree lower upper interval, interval ∈ overlap tree lower upper ↔
    Holds tree interval ∧ interval.first < upper ∧ lower < interval.last

/-- Interval trees that are lists. -/
def listTrees (Key Data : Type u) [LinearOrder Key] [DecidableEq Data] :
    IntervalTrees Key Data where
  Tree := List (Interval Key Data)
  new := []
  add tree interval :=
    if interval.last ≤ interval.first then .error .valueError else .ok (tree.insert interval)
  boundaries tree :=
    (tree.flatMap fun interval => [interval.first, interval.last]).dedup.insertionSort (· ≤ ·)
  overlap tree lower upper := tree.filter fun interval =>
    interval.first < upper ∧ lower < interval.last
  Holds tree interval := interval ∈ tree
  not_holds_new _ := List.not_mem_nil
  add_empty _ _ isEmpty := if_pos isEmpty
  add_nonempty tree interval nonempty :=
    ⟨_, if_neg (not_le.mpr nonempty), fun _ => List.mem_insert_iff⟩
  mem_boundaries tree key := by simp
  ascending tree := by
    have sorted := List.pairwise_insertionSort (α := Key) (· ≤ ·)
      (tree.flatMap fun interval => [interval.first, interval.last]).dedup
    have nodup := (List.perm_insertionSort (α := Key) (· ≤ ·)
      (tree.flatMap fun interval => [interval.first, interval.last]).dedup).nodup_iff.mpr
        (List.nodup_dedup _)
    exact sorted.imp₂ (fun _ _ le ne => lt_of_le_of_ne le ne) nodup
  mem_overlap tree lower upper interval := by simp

section Blocks

variable {Key Schema : Type u} [LinearOrder Key] {trees : IntervalTrees Key (Block Key Schema)}

structure BlockGroup (Key Schema : Type u) where
  keyMin : Key
  keyMax : Key
  fieldGroupToBlocks : List (Schema × List (Block Key Schema))
  keyMaxInclusive : Bool

namespace BlockGroup

def keyInRange (group : BlockGroup Key Schema) (key : Key) : Bool :=
  if group.keyMaxInclusive then group.keyMin ≤ key ∧ key ≤ group.keyMax
  else group.keyMin ≤ key ∧ key < group.keyMax

def keyBelowRange (group : BlockGroup Key Schema) (key : Key) : Bool :=
  key < group.keyMin

theorem keyInRange_iff {group : BlockGroup Key Schema} {key : Key} :
    group.keyInRange key ↔ group.keyMin ≤ key ∧
      (key < group.keyMax ∨ group.keyMaxInclusive = true ∧ key = group.keyMax) := by
  rcases group with ⟨keyMin, keyMax, fieldGroups, _ | _⟩
  · simp [keyInRange]
  · simp [keyInRange, le_iff_lt_or_eq (a := key)]

/-- The blocks of all field groups. -/
def blocks (group : BlockGroup Key Schema) : List (Block Key Schema) :=
  group.fieldGroupToBlocks.flatMap Prod.snd

end BlockGroup

structure OrderedBlockGroups (Key Schema : Type u) where
  keyMin : Option Key
  keyMax : Option Key
  blockGroups : List (BlockGroup Key Schema)
  boundaryTable : List Key

/-- The tree of all rows, and its intervals by their last key. -/
structure BlockIntervalTree (trees : IntervalTrees Key (Block Key Schema)) where
  tree : trees.Tree
  maxKeyMap : Key → List (Interval Key (Block Key Schema))

namespace BlockIntervalTree

def new (trees : IntervalTrees Key (Block Key Schema)) : BlockIntervalTree trees where
  tree := trees.new
  maxKeyMap := fun _ => []

/-- The boundaries of the intervals. -/
abbrev boundaries (index : BlockIntervalTree trees) : List Key :=
  trees.boundaries index.tree

/-- One row of `add_sst_rows`. -/
def addSstRow (context : DeltaContext Schema) (index : BlockIntervalTree trees)
    (row : SSTableRow Key) : Except Error (BlockIntervalTree trees) := do
  let interval : Interval Key (Block Key Schema) := ⟨row.keyMin, row.keyMax, ⟨row, context⟩⟩
  let tree ← trees.add index.tree interval
  return {
    tree := tree
    maxKeyMap := fun key =>
      if key = row.keyMax then index.maxKeyMap key ++ [interval] else index.maxKeyMap key }

def addSstRows (index : BlockIntervalTree trees) (sstRows : List (SSTableRow Key))
    (context : DeltaContext Schema) : Except Error (BlockIntervalTree trees) :=
  sstRows.foldlM (addSstRow context) index

/-- The block group between two neighbouring boundaries. -/
def blockGroup [DecidableEq Schema] (index : BlockIntervalTree trees)
    (lowerBound upperBound : Key) (maxKeyInclusive : Bool) : BlockGroup Key Schema where
  keyMin := lowerBound
  keyMax := upperBound
  fieldGroupToBlocks :=
    let intervals := (index.maxKeyMap lowerBound).foldl (fun intervals interval =>
      intervals.insert interval) (trees.overlap index.tree lowerBound upperBound)
    groupInto (·.context.schema) (intervals.map (·.data))
  keyMaxInclusive := maxKeyInclusive

def bisectLeft (keys : List Key) (key : Key) : ℕ :=
  (keys.takeWhile (· < key)).length

def bisectRight (keys : List Key) (key : Key) : ℕ :=
  (keys.takeWhile (· ≤ key)).length

/-- `keys[start:stop]`. -/
def slice (keys : List Key) (start stop : Option ℕ) : List Key :=
  (match stop with
    | none => keys
    | some stop => keys.take stop).drop (start.getD 0)

/-- The boundaries around the keys between `minKey` and `maxKey`. -/
def boundaryTable (keyBoundaries : List Key) (minKey maxKey : Option Key) : List Key :=
  let minKeyIdx := minKey.map fun minKey => bisectLeft keyBoundaries minKey - 1
  let maxKeyIdx := maxKey.map fun maxKey => bisectRight keyBoundaries maxKey + 1
  slice keyBoundaries minKeyIdx maxKeyIdx

def getSortedBlockGroups [DecidableEq Schema] (index : BlockIntervalTree trees)
    (minKey maxKey : Option Key) :
    Except Error (OrderedBlockGroups Key Schema) :=
  if ∃ lower ∈ minKey, ∃ upper ∈ maxKey, lower > upper then .error .valueError
  else
    let boundaryTable := boundaryTable index.boundaries minKey maxKey
    let pairs := boundaryTable.zip boundaryTable.tail
    .ok {
      keyMin := (pairs.map Prod.fst).min?
      keyMax := (pairs.map Prod.snd).max?
      blockGroups := pairs.map fun pair =>
        index.blockGroup pair.1 pair.2 (boundaryTable.getLast? = some pair.2)
      boundaryTable := boundaryTable }

/-- The rows of all manifests are added, as the reader of a dataset does it. -/
def addAllRows (trees : IntervalTrees Key (Block Key Schema))
    (manifests : List (List (SSTableRow Key) × DeltaContext Schema)) :
    Except Error (BlockIntervalTree trees) :=
  manifests.foldlM (fun index manifest => index.addSstRows manifest.1 manifest.2) (new trees)

/-- The blocks of all manifests. -/
def blocksOf (manifests : List (List (SSTableRow Key) × DeltaContext Schema)) :
    List (Block Key Schema) :=
  manifests.flatMap fun manifest => manifest.1.map fun row => ⟨row, manifest.2⟩

def intervalOf (block : Block Key Schema) : Interval Key (Block Key Schema) where
  first := block.row.keyMin
  last := block.row.keyMax
  data := block

/-- The tree has the intervals of the blocks, and finds them by their last key too. -/
structure Indexes (index : BlockIntervalTree trees) (blocks : List (Block Key Schema)) :
    Prop where
  tree : ∀ interval, trees.Holds index.tree interval ↔ ∃ block ∈ blocks, interval = intervalOf block
  maxKeys : ∀ key interval, interval ∈ index.maxKeyMap key ↔
    trees.Holds index.tree interval ∧ interval.last = key

theorem Indexes.new (trees : IntervalTrees Key (Block Key Schema)) :
    (BlockIntervalTree.new trees).Indexes [] where
  tree := by simp [BlockIntervalTree.new, trees.not_holds_new]
  maxKeys := by simp [BlockIntervalTree.new, trees.not_holds_new]

variable {index : BlockIntervalTree trees} {blocks : List (Block Key Schema)}

theorem Indexes.addSstRow (indexes : index.Indexes blocks) {row : SSTableRow Key}
    (context : DeltaContext Schema) (nonempty : row.keyMin < row.keyMax) :
    ∃ added, addSstRow context index row = .ok added ∧
      added.Indexes (blocks ++ [⟨row, context⟩]) := by
  let interval : Interval Key (Block Key Schema) := ⟨row.keyMin, row.keyMax, ⟨row, context⟩⟩
  rcases trees.add_nonempty index.tree (show interval.first < interval.last from nonempty) with
    ⟨tree, isTree, holds⟩
  simp only [BlockIntervalTree.addSstRow, isTree, bind, Except.bind, pure, Except.pure, interval]
  refine ⟨_, rfl, ?_, ?_⟩
  · intro other
    simp only [holds, indexes.tree, List.mem_append, List.mem_singleton]
    constructor
    · rintro (rfl | ⟨block, blockMem, rfl⟩)
      · exact ⟨⟨row, context⟩, Or.inr rfl, rfl⟩
      · exact ⟨block, Or.inl blockMem, rfl⟩
    · rintro ⟨block, blockMem | rfl, rfl⟩
      · exact Or.inr ⟨block, blockMem, rfl⟩
      · exact Or.inl rfl
  · intro key other
    simp only [holds]
    split_ifs with isMax
    · simp only [List.mem_append, List.mem_singleton, indexes.maxKeys]
      constructor
      · rintro (⟨inTree, isLast⟩ | rfl)
        · exact ⟨Or.inr inTree, isLast⟩
        · exact ⟨Or.inl rfl, isMax.symm⟩
      · rintro ⟨rfl | inTree, isLast⟩
        · exact Or.inr rfl
        · exact Or.inl ⟨inTree, isLast⟩
    · simp only [indexes.maxKeys]
      constructor
      · rintro ⟨inTree, isLast⟩
        exact ⟨Or.inr inTree, isLast⟩
      · rintro ⟨rfl | inTree, isLast⟩
        · exact absurd isLast.symm isMax
        · exact ⟨inTree, isLast⟩

theorem Indexes.addSstRows (indexes : index.Indexes blocks) {rows : List (SSTableRow Key)}
    (context : DeltaContext Schema) (nonempty : ∀ row ∈ rows, row.keyMin < row.keyMax) :
    ∃ added, index.addSstRows rows context = .ok added ∧
      added.Indexes (blocks ++ rows.map fun row => ⟨row, context⟩) := by
  induction rows generalizing index blocks with
  | nil => exact ⟨index, rfl, by simpa using indexes⟩
  | cons row rows ih =>
      obtain ⟨first, isFirst, firstIndexes⟩ :=
        indexes.addSstRow context (nonempty row List.mem_cons_self)
      obtain ⟨added, isAdded, addedIndexes⟩ :=
        ih firstIndexes fun other otherMem => nonempty other (List.mem_cons_of_mem row otherMem)
      refine ⟨added, ?_, by simpa using addedIndexes⟩
      rw [BlockIntervalTree.addSstRows, List.foldlM_cons, isFirst]
      exact isAdded

/-- If every file has at least two keys, the tree is built. -/
theorem exists_addAllRows (trees : IntervalTrees Key (Block Key Schema))
    {manifests : List (List (SSTableRow Key) × DeltaContext Schema)}
    (nonempty : ∀ manifest ∈ manifests, ∀ row ∈ manifest.1, row.keyMin < row.keyMax) :
    ∃ index, addAllRows trees manifests = .ok index ∧ index.Indexes (blocksOf manifests) := by
  suffices general : ∀ {index : BlockIntervalTree trees} {blocks},
      index.Indexes blocks → ∃ added, manifests.foldlM
        (fun index manifest => index.addSstRows manifest.1 manifest.2) index = .ok added ∧
          added.Indexes (blocks ++ blocksOf manifests) by
    simpa [addAllRows] using general (Indexes.new trees)
  induction manifests with
  | nil => exact fun indexes => ⟨_, rfl, by simpa [blocksOf] using indexes⟩
  | cons manifest manifests ih =>
      intro index blocks indexes
      obtain ⟨first, isFirst, firstIndexes⟩ :=
        indexes.addSstRows manifest.2 (nonempty manifest List.mem_cons_self)
      obtain ⟨added, isAdded, addedIndexes⟩ :=
        ih (fun other otherMem => nonempty other (List.mem_cons_of_mem manifest otherMem))
          firstIndexes
      refine ⟨added, ?_, by simpa [blocksOf] using addedIndexes⟩
      rw [List.foldlM_cons, isFirst]
      exact isAdded

theorem keyMin_lt_of_addSstRow {row : SSTableRow Key} {context : DeltaContext Schema}
    {added : BlockIntervalTree trees} (isAdded : addSstRow context index row = .ok added) :
    row.keyMin < row.keyMax := by
  simp only [addSstRow, except_bind_eq_ok] at isAdded
  obtain ⟨tree, isTree, -⟩ := isAdded
  by_contra isEmpty
  rw [trees.add_empty index.tree (not_lt.mp isEmpty)] at isTree
  cases isTree

theorem keyMin_lt_of_addSstRows {rows : List (SSTableRow Key)} {context : DeltaContext Schema}
    {added : BlockIntervalTree trees} (isAdded : index.addSstRows rows context = .ok added) :
    ∀ row ∈ rows, row.keyMin < row.keyMax := by
  induction rows generalizing index with
  | nil => simp
  | cons row rows ih =>
      simp only [addSstRows, List.foldlM_cons, except_bind_eq_ok] at isAdded
      obtain ⟨first, isFirst, isAdded⟩ := isAdded
      simp only [List.mem_cons, forall_eq_or_imp]
      exact ⟨keyMin_lt_of_addSstRow isFirst, ih isAdded⟩

/-- A file with a single key is not accepted. -/
theorem keyMin_lt_of_addAllRows
    {manifests : List (List (SSTableRow Key) × DeltaContext Schema)}
    {added : BlockIntervalTree trees} (isAdded : addAllRows trees manifests = .ok added) :
    ∀ manifest ∈ manifests, ∀ row ∈ manifest.1, row.keyMin < row.keyMax := by
  rw [addAllRows] at isAdded
  generalize BlockIntervalTree.new trees = start at isAdded
  induction manifests generalizing start with
  | nil => simp
  | cons manifest manifests ih =>
      simp only [List.foldlM_cons, except_bind_eq_ok] at isAdded
      obtain ⟨first, isFirst, isAdded⟩ := isAdded
      simp only [List.mem_cons, forall_eq_or_imp]
      exact ⟨keyMin_lt_of_addSstRows isFirst, ih first isAdded⟩

section Groups

variable [DecidableEq Schema]

/-- The block groups of a boundary table, one after the other. -/
def groupsFrom (index : BlockIntervalTree trees) : List Key → List (BlockGroup Key Schema)
  | lower :: upper :: rest =>
      index.blockGroup lower upper rest.isEmpty :: index.groupsFrom (upper :: rest)
  | _ => []

/-- A group is between two neighbours of the table. -/
theorem exists_neighbours_of_mem_groupsFrom {table : List Key} {group : BlockGroup Key Schema}
    (groupMem : group ∈ index.groupsFrom table) :
    ∃ number lower upper inclusive, table[number]? = some lower ∧
      table[number + 1]? = some upper ∧ group = index.blockGroup lower upper inclusive := by
  induction table with
  | nil => cases groupMem
  | cons lower table ih =>
      rcases table with _ | ⟨upper, rest⟩
      · cases groupMem
      · rcases List.mem_cons.mp groupMem with rfl | groupMem
        · exact ⟨0, lower, upper, rest.isEmpty, rfl, rfl, rfl⟩
        · obtain ⟨number, groupLower, groupUpper, inclusive, isLower, isUpper, isGroup⟩ :=
            ih groupMem
          exact ⟨number + 1, groupLower, groupUpper, inclusive, isLower, isUpper, isGroup⟩

theorem map_zip_eq_groupsFrom {table : List Key} (ascending : table.Pairwise (· < ·)) :
    (table.zip table.tail).map (fun pair =>
      index.blockGroup pair.1 pair.2 (table.getLast? = some pair.2)) = index.groupsFrom table := by
  suffices general : ∀ last, table.getLast? = last →
      (table.zip table.tail).map (fun pair =>
        index.blockGroup pair.1 pair.2 (last = some pair.2)) = index.groupsFrom table by
    exact general _ rfl
  intro last isLast
  induction table with
  | nil => rfl
  | cons lower table ih =>
      rcases table with _ | ⟨upper, rest⟩
      · rfl
      · have tailAscending := (List.pairwise_cons.mp ascending).2
        have atEnd : decide (last = some upper) = rest.isEmpty := by
          rcases rest with _ | ⟨next, rest⟩
          · simp [← isLast]
          · have lastMem : (next :: rest).getLast (by simp) ∈ next :: rest := List.getLast_mem _
            have less := (List.pairwise_cons.mp tailAscending).1 _ lastMem
            rw [List.getLast?_cons_cons, List.getLast?_cons_cons,
              List.getLast?_eq_getLast_of_ne_nil (by simp)] at isLast
            simp only [← isLast, Option.some.injEq, List.isEmpty_cons, decide_eq_false_iff_not]
            exact less.ne'
        rw [List.getLast?_cons_cons] at isLast
        have rest' := ih tailAscending isLast
        simp only [List.tail_cons] at rest' ⊢
        rw [List.zip_cons_cons, List.map_cons, groupsFrom, atEnd, rest']

private theorem mem_foldl_insert {intervals more : List (Interval Key (Block Key Schema))}
    {interval : Interval Key (Block Key Schema)} :
    interval ∈ more.foldl (fun intervals interval => intervals.insert interval) intervals ↔
      interval ∈ intervals ∨ interval ∈ more := by
  induction more generalizing intervals with
  | nil => simp
  | cons head more ih =>
      rw [List.foldl_cons, ih, List.mem_insert_iff, List.mem_cons]
      tauto

/-- A block is in the group if its keys, the last one included, reach into the range. -/
theorem Indexes.mem_blocks (indexes : index.Indexes blocks) {lower upper : Key}
    {inclusive : Bool} {block : Block Key Schema} :
    block ∈ (index.blockGroup lower upper inclusive).blocks ↔
      block ∈ blocks ∧ (block.row.keyMin < upper ∧ lower < block.row.keyMax ∨
        block.row.keyMax = lower) := by
  have isInterval : ∀ interval, (interval ∈ trees.overlap index.tree lower upper ∨
      interval ∈ index.maxKeyMap lower) ↔ trees.Holds index.tree interval ∧
        (interval.first < upper ∧ lower < interval.last ∨ interval.last = lower) := by
    intro interval
    simp only [trees.mem_overlap, indexes.maxKeys]
    tauto
  simp only [BlockGroup.blocks, BlockIntervalTree.blockGroup, mem_flatMap_groupInto,
    List.mem_map, mem_foldl_insert, isInterval, indexes.tree]
  constructor
  · rintro ⟨interval, ⟨⟨block, blockMem, rfl⟩, reaches⟩, rfl⟩
    exact ⟨blockMem, reaches⟩
  · rintro ⟨blockMem, reaches⟩
    exact ⟨intervalOf block, ⟨⟨block, blockMem, rfl⟩, reaches⟩, rfl⟩

end Groups

section BoundaryTable

omit [LinearOrder Key] in
private theorem lt_length_takeWhile_iff {keys : List Key} {test : Key → Bool}
    (closed : keys.Pairwise fun left right => test right → test left) {j : ℕ}
    (less : j < keys.length) : j < (keys.takeWhile test).length ↔ test keys[j] := by
  induction keys generalizing j with
  | nil => simp at less
  | cons head keys ih =>
      rw [List.pairwise_cons] at closed
      cases j with
      | zero => by_cases holds : test head <;> simp [holds]
      | succ j =>
          have tailLess : j < keys.length := by simpa using less
          have ofTail := ih closed.2 tailLess
          by_cases holds : test head
          · simpa [List.takeWhile_cons, holds] using ofTail
          · have fails : ¬test keys[j] := fun later =>
              holds (closed.1 _ (List.getElem_mem tailLess) later)
            simp [holds, fails]

variable {keys : List Key}

theorem lt_bisectLeft_iff (ascending : keys.Pairwise (· < ·)) {key bound : Key} {j : ℕ}
    (isBound : keys[j]? = some bound) : j < bisectLeft keys key ↔ bound < key := by
  obtain ⟨less, rfl⟩ := List.getElem?_eq_some_iff.mp isBound
  have closed : keys.Pairwise fun left right =>
      decide (right < key) = true → decide (left < key) = true :=
    ascending.imp fun before isLess => by simpa using before.trans (by simpa using isLess)
  exact (lt_length_takeWhile_iff closed less).trans (by simp)

theorem lt_bisectRight_iff (ascending : keys.Pairwise (· < ·)) {key bound : Key} {j : ℕ}
    (isBound : keys[j]? = some bound) : j < bisectRight keys key ↔ bound ≤ key := by
  obtain ⟨less, rfl⟩ := List.getElem?_eq_some_iff.mp isBound
  have closed : keys.Pairwise fun left right =>
      decide (right ≤ key) = true → decide (left ≤ key) = true :=
    ascending.imp fun before isLess => by simpa using before.le.trans (by simpa using isLess)
  exact (lt_length_takeWhile_iff closed less).trans (by simp)

theorem bisectLeft_le_length (keys : List Key) (key : Key) :
    bisectLeft keys key ≤ keys.length :=
  (List.takeWhile_sublist _).length_le

theorem bisectLeft_le_bisectRight (ascending : keys.Pairwise (· < ·)) {lower upper : Key}
    (le : lower ≤ upper) : bisectLeft keys lower ≤ bisectRight keys upper := by
  by_contra greater
  have less : bisectRight keys upper < keys.length :=
    (not_le.mp greater).trans_le (bisectLeft_le_length keys lower)
  have isBound := List.getElem?_eq_getElem less
  have below := (lt_bisectLeft_iff ascending isBound).mp (not_le.mp greater)
  exact lt_irrefl _ ((lt_bisectRight_iff ascending isBound).mpr (below.le.trans le))

theorem getElem?_le_of_le (ascending : keys.Pairwise (· < ·)) {i j : ℕ} {left right : Key}
    (le : i ≤ j) (isLeft : keys[i]? = some left) (isRight : keys[j]? = some right) :
    left ≤ right := by
  obtain ⟨iLt, rfl⟩ := List.getElem?_eq_some_iff.mp isLeft
  obtain ⟨jLt, rfl⟩ := List.getElem?_eq_some_iff.mp isRight
  rcases le.lt_or_eq with less | rfl
  · exact (List.pairwise_iff_getElem.mp ascending i j iLt jLt less).le
  · exact le_rfl

theorem le_getLast_of_mem (ascending : keys.Pairwise (· < ·)) {bound last : Key}
    (boundMem : bound ∈ keys) (isLast : keys.getLast? = some last) : bound ≤ last := by
  obtain ⟨i, isBound⟩ := List.getElem?_of_mem boundMem
  have iLt := (List.getElem?_eq_some_iff.mp isBound).1
  rw [List.getLast?_eq_getElem?] at isLast
  exact getElem?_le_of_le ascending (by omega) isBound isLast

/-- A key that the query asks for, between two boundaries. -/
structure Surrounded (keys : List Key) (query : QueryExpression Key) (key : Key) : Prop where
  isMatch : query.matchesQuery key
  between : ∃ (i j : ℕ) (lower upper : Key), i < j ∧ keys[i]? = some lower ∧
    keys[j]? = some upper ∧ lower ≤ key ∧ key ≤ upper

theorem boundaryTable_of_none {query : QueryExpression Key} (noRange : query.keyRange = none) :
    boundaryTable keys query.minKey query.maxKey = keys := by
  simp [boundaryTable, QueryExpression.minKey, QueryExpression.maxKey, noRange, slice]

theorem boundaryTable_of_some {query : QueryExpression Key} {lower upper : Key}
    (hasRange : query.keyRange = some (lower, upper)) :
    boundaryTable keys query.minKey query.maxKey =
      (keys.take (bisectRight keys upper + 1)).drop (bisectLeft keys lower - 1) := by
  simp [boundaryTable, QueryExpression.minKey, QueryExpression.maxKey, hasRange, slice]

theorem pairwise_boundaryTable (ascending : keys.Pairwise (· < ·)) {minKey maxKey : Option Key} :
    (boundaryTable keys minKey maxKey).Pairwise (· < ·) := by
  refine List.Pairwise.sublist ?_ ascending
  unfold boundaryTable slice
  apply (List.drop_sublist _ _).trans
  split
  · exact List.Sublist.refl _
  · exact List.take_sublist _ _

/-- The table begins below the key. -/
theorem exists_boundaryTable_cons (ascending : keys.Pairwise (· < ·))
    {query : QueryExpression Key} {key : Key} (surrounded : Surrounded keys query key) :
    ∃ lower upper rest, boundaryTable keys query.minKey query.maxKey = lower :: upper :: rest ∧
      lower ≤ key := by
  obtain ⟨isMatch, i, j, below, above, iLt, isBelow, isAbove, belowLe, leAbove⟩ := surrounded
  have jLt := (List.getElem?_eq_some_iff.mp isAbove).1
  have atLeastTwo : ∀ (first second : Key) {table : List Key}, table[0]? = some first →
      table[1]? = some second → first ≤ key →
        ∃ lower upper rest, table = lower :: upper :: rest ∧ lower ≤ key := by
    intro first second table isFirst isSecond firstLe
    rcases table with _ | ⟨head, _ | ⟨next, rest⟩⟩
    · cases isFirst
    · cases isSecond
    · cases isFirst
      exact ⟨_, next, rest, rfl, firstLe⟩
  have isFirst : keys[0]? = some keys[0] := List.getElem?_eq_getElem (by omega)
  have isSecond : keys[1]? = some keys[1] := List.getElem?_eq_getElem (by omega)
  have firstLe : keys[0] ≤ key :=
    (getElem?_le_of_le ascending (Nat.zero_le i) isFirst isBelow).trans belowLe
  rcases hasRange : query.keyRange with _ | ⟨lower, upper⟩
  · rw [boundaryTable_of_none hasRange]
    exact atLeastTwo _ _ isFirst isSecond firstLe
  · have ⟨lowerLe, leUpper⟩ := (QueryExpression.matchesQuery_of_some hasRange).mp isMatch
    have startLe := bisectLeft_le_bisectRight ascending (lowerLe.trans leUpper)
    have notBefore : bisectLeft keys lower ≤ j := by
      by_contra before
      have less := (lt_bisectLeft_iff ascending isAbove).mp (not_le.mp before)
      exact absurd (leAbove.trans_lt less) (not_lt.mpr lowerLe)
    have firstCounted : 0 < bisectRight keys upper :=
      (lt_bisectRight_iff ascending isFirst).mpr (firstLe.trans leUpper)
    rw [boundaryTable_of_some hasRange]
    rcases Nat.eq_zero_or_pos (bisectLeft keys lower) with atStart | positive
    · rw [atStart]
      refine atLeastTwo keys[0] keys[1] ?_ ?_ firstLe
      · rw [List.getElem?_drop, List.getElem?_take_of_lt (by omega)]
        exact isFirst
      · rw [List.getElem?_drop, List.getElem?_take_of_lt (by omega)]
        exact isSecond
    · have isStart : keys[bisectLeft keys lower - 1]? = some keys[bisectLeft keys lower - 1] :=
        List.getElem?_eq_getElem (by omega)
      have isNext : keys[bisectLeft keys lower]? = some keys[bisectLeft keys lower] :=
        List.getElem?_eq_getElem (by omega)
      have startBelow := (lt_bisectLeft_iff ascending isStart).mp (Nat.sub_lt positive one_pos)
      refine atLeastTwo keys[bisectLeft keys lower - 1] keys[bisectLeft keys lower] ?_ ?_
        (startBelow.le.trans lowerLe)
      · rw [List.getElem?_drop, List.getElem?_take_of_lt (by omega), Nat.add_zero]
        exact isStart
      · rw [List.getElem?_drop, List.getElem?_take_of_lt (by omega), Nat.sub_add_cancel positive]
        exact isNext

/-- The query begins above the boundaries before `lower`, and reaches `lower`, but ends later. -/
structure IsNeighbour (keys : List Key) (query : QueryExpression Key) (lower upper : Key) :
    Prop where
  lowerMem : lower ∈ keys
  upperMem : upper ∈ keys
  less : lower < upper
  startsAt : ∀ range ∈ query.keyRange, range.1 ≤ upper ∧ ∀ key ∈ keys, key < range.1 → key ≤ lower
  reaches : ∀ range ∈ query.keyRange, lower ≤ range.2

theorem isNeighbour_of_boundaryTable (ascending : keys.Pairwise (· < ·))
    {query : QueryExpression Key} {lower upper : Key} {number : ℕ}
    (isLower : (boundaryTable keys query.minKey query.maxKey)[number]? = some lower)
    (isUpper : (boundaryTable keys query.minKey query.maxKey)[number + 1]? = some upper) :
    IsNeighbour keys query lower upper := by
  rcases hasRange : query.keyRange with _ | ⟨first, last⟩
  · rw [boundaryTable_of_none hasRange] at isLower isUpper
    refine ⟨List.mem_of_getElem? isLower, List.mem_of_getElem? isUpper, ?_, by simp [hasRange],
      by simp [hasRange]⟩
    obtain ⟨iLt, rfl⟩ := List.getElem?_eq_some_iff.mp isLower
    obtain ⟨jLt, rfl⟩ := List.getElem?_eq_some_iff.mp isUpper
    exact List.pairwise_iff_getElem.mp ascending _ _ iLt jLt (Nat.lt_succ_self number)
  · rw [boundaryTable_of_some hasRange, List.getElem?_drop] at isLower isUpper
    have bounded := (List.getElem?_eq_some_iff.mp isUpper).1
    rw [List.length_take] at bounded
    rw [List.getElem?_take_of_lt (by omega)] at isLower isUpper
    obtain ⟨iLt, rfl⟩ := List.getElem?_eq_some_iff.mp isLower
    obtain ⟨jLt, rfl⟩ := List.getElem?_eq_some_iff.mp isUpper
    refine ⟨List.getElem_mem iLt, List.getElem_mem jLt, ?_, ?_, ?_⟩
    · exact List.pairwise_iff_getElem.mp ascending _ _ iLt jLt (by omega)
    · simp only [hasRange, Option.mem_some_iff, forall_eq']
      constructor
      · by_contra below
        have before := (lt_bisectLeft_iff ascending isUpper).mpr (not_le.mp below)
        omega
      · intro key keyMem below
        obtain ⟨j, isKey⟩ := List.getElem?_of_mem keyMem
        have before := (lt_bisectLeft_iff ascending isKey).mpr below
        exact getElem?_le_of_le ascending (by omega) isKey isLower
    · simp only [hasRange, Option.mem_some_iff, forall_eq']
      exact (lt_bisectRight_iff ascending isLower).mp (by omega)

/-- If the query begins after `lower` and before some boundary, the table begins with `lower`. -/
theorem exists_boundaryTable_eq_cons (ascending : keys.Pairwise (· < ·))
    {query : QueryExpression Key} {lower first last : Key}
    (hasRange : query.keyRange = some (first, last)) (lowerMem : lower ∈ keys)
    (below : lower < first) (greatest : ∀ key ∈ keys, key < first → key ≤ lower)
    (reached : ∃ key ∈ keys, first ≤ key) :
    ∃ upper rest, boundaryTable keys query.minKey query.maxKey = lower :: upper :: rest := by
  obtain ⟨i, isLower⟩ := List.getElem?_of_mem lowerMem
  obtain ⟨next, nextMem, firstLe⟩ := reached
  obtain ⟨j, isNext⟩ := List.getElem?_of_mem nextMem
  have iLt := (List.getElem?_eq_some_iff.mp isLower).1
  have jLt := (List.getElem?_eq_some_iff.mp isNext).1
  have before := (lt_bisectLeft_iff ascending isLower).mpr below
  have beyond : i < j := by
    by_contra notBeyond
    have le := getElem?_le_of_le ascending (not_lt.mp notBeyond) isNext isLower
    exact absurd (firstLe.trans le) (not_le.mpr below)
  have isUpper : keys[i + 1]? = some keys[i + 1] := List.getElem?_eq_getElem (by omega)
  have start : bisectLeft keys first = i + 1 := by
    by_contra differs
    have counted : i + 1 < bisectLeft keys first := by omega
    have isBelow := (lt_bisectLeft_iff ascending isUpper).mp counted
    have notAfter := greatest _ (List.getElem_mem _) isBelow
    rw [← (List.getElem?_eq_some_iff.mp isLower).2] at notAfter
    exact absurd (List.pairwise_iff_getElem.mp ascending i (i + 1) iLt (by omega) (by omega))
      (not_lt.mpr notAfter)
  have counted : i < bisectRight keys last :=
    (lt_bisectRight_iff ascending isLower).mpr (below.le.trans (query.ascending _ hasRange))
  rw [boundaryTable_of_some hasRange, start, Nat.add_sub_cancel]
  rcases isTable : (keys.take (bisectRight keys last + 1)).drop i with
    _ | ⟨head, _ | ⟨second, rest⟩⟩
  · have length := congrArg List.length isTable
    rw [List.length_drop, List.length_take, List.length_nil] at length
    omega
  · have length := congrArg List.length isTable
    rw [List.length_drop, List.length_take, List.length_singleton] at length
    omega
  · refine ⟨second, rest, ?_⟩
    have isHead := congrArg (·[0]?) isTable
    simp only [List.getElem?_drop, List.getElem?_cons_zero, Nat.add_zero] at isHead
    rw [List.getElem?_take_of_lt (by omega), isLower] at isHead
    rw [Option.some.inj isHead]

/-- The last boundary of the table is the last one of all, or the query does not reach it. -/
theorem getLast_boundaryTable (ascending : keys.Pairwise (· < ·))
    {query : QueryExpression Key} {last : Key}
    (isLast : (boundaryTable keys query.minKey query.maxKey).getLast? = some last) :
    keys.getLast? = some last ∨ ∀ key, query.matchesQuery key → key < last := by
  rcases hasRange : query.keyRange with _ | ⟨lower, upper⟩
  · rw [boundaryTable_of_none hasRange] at isLast
    exact Or.inl isLast
  · rw [boundaryTable_of_some hasRange, List.getLast?_drop] at isLast
    split_ifs at isLast
    rw [List.getLast?_take, if_neg (Nat.succ_ne_zero _), Nat.add_sub_cancel] at isLast
    rcases isNext : keys[bisectRight keys upper]? with _ | next
    · rw [isNext, Option.none_or] at isLast
      exact Or.inl isLast
    · rw [isNext, Option.some_or] at isLast
      cases isLast
      right
      intro key isMatch
      have leUpper := ((QueryExpression.matchesQuery_of_some hasRange).mp isMatch).2
      have above := mt (lt_bisectRight_iff ascending isNext).mpr (lt_irrefl _)
      exact leUpper.trans_lt (not_le.mp above)

end BoundaryTable

/-- The boundaries of a block, around a key of it that the query asks for. -/
theorem Indexes.surrounded (indexes : index.Indexes blocks) {query : QueryExpression Key}
    {block : Block Key Schema} {key : Key} (blockMem : block ∈ blocks)
    (nonempty : block.row.keyMin < block.row.keyMax) (isMatch : query.matchesQuery key)
    (lowerLe : block.row.keyMin ≤ key) (leUpper : key ≤ block.row.keyMax) :
    Surrounded index.boundaries query key := by
  have ascending := trees.ascending index.tree
  have intervalMem := (indexes.tree (intervalOf block)).mpr ⟨block, blockMem, rfl⟩
  have firstMem : block.row.keyMin ∈ index.boundaries :=
    (trees.mem_boundaries _ _).mpr ⟨_, intervalMem, Or.inl rfl⟩
  have lastMem : block.row.keyMax ∈ index.boundaries :=
    (trees.mem_boundaries _ _).mpr ⟨_, intervalMem, Or.inr rfl⟩
  obtain ⟨i, isFirst⟩ := List.getElem?_of_mem firstMem
  obtain ⟨j, isLast⟩ := List.getElem?_of_mem lastMem
  refine ⟨isMatch, i, j, _, _, ?_, isFirst, isLast, lowerLe, leUpper⟩
  by_contra notLess
  exact absurd (getElem?_le_of_le ascending (not_lt.mp notLess) isLast isFirst)
    (not_le.mpr nonempty)

/--
Every block that has a key which the query asks for is in the group of the key.
If the group contains its upper end, that is the last boundary of the table.
-/
theorem Indexes.mem_blocks_of_contains [DecidableEq Schema] (indexes : index.Indexes blocks)
    {query : QueryExpression Key} {lower upper key : Key} {inclusive : Bool}
    {block : Block Key Schema} (ascending : lower < upper)
    (isEnd : inclusive →
      (boundaryTable index.boundaries query.minKey query.maxKey).getLast? = some upper)
    (blockMem : block ∈ blocks) (nonempty : block.row.keyMin < block.row.keyMax)
    (lowerLe : block.row.keyMin ≤ key) (leUpper : key ≤ block.row.keyMax)
    (isMatch : query.matchesQuery key)
    (inRange : (index.blockGroup lower upper inclusive).keyInRange key) :
    block ∈ (index.blockGroup lower upper inclusive).blocks := by
  rw [indexes.mem_blocks]
  refine ⟨blockMem, ?_⟩
  obtain ⟨lowerLeKey, below | ⟨isInclusive, rfl⟩⟩ := BlockGroup.keyInRange_iff.mp inRange
  · rcases (lowerLeKey.trans leUpper).lt_or_eq with less | same
    · exact Or.inl ⟨lowerLe.trans_lt below, less⟩
    · exact Or.inr same.symm
  · rcases lowerLe.lt_or_eq with less | same
    · exact Or.inl ⟨less, ascending.trans_le leUpper⟩
    · -- The block begins at the upper end, so there is a boundary beyond.
      exfalso
      have lastMem : block.row.keyMax ∈ index.boundaries :=
        (trees.mem_boundaries _ _).mpr
          ⟨_, (indexes.tree (intervalOf block)).mpr ⟨block, blockMem, rfl⟩, Or.inr rfl⟩
      rcases getLast_boundaryTable (trees.ascending index.tree) (isEnd isInclusive) with
        isLast | notReached
      · have le := le_getLast_of_mem (trees.ascending index.tree) lastMem isLast
        exact absurd (nonempty.trans_le le) (not_lt.mpr same.ge)
      · exact absurd (notReached _ isMatch) (lt_irrefl _)

end BlockIntervalTree

end Blocks

end Deltacat.Experimental.Rivulet
