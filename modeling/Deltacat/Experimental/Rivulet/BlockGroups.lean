import Deltacat.Experimental.Rivulet.BlockIntervalTree
import Mathlib.Data.List.Chain
import Mathlib.Tactic

/-!
# Block groups index every key

The block groups between two optional bounds are neighbouring ranges in ascending order. A
key that is within the bounds and in the range of a row is in the range of exactly one
group, and the group has the blocks of all rows whose range the key is in
(`exists_blockGroups`).

With one bound only, the boundary table is the one between this bound and a key beyond all
boundaries, so that both cases are instances of a query with a range.
-/

namespace Deltacat.Experimental.Rivulet.BlockIntervalTree

universe u

variable {Key Schema : Type u} [LinearOrder Key]

/-- The keys between two optional bounds. -/
def Requested (minKey maxKey : Option Key) (key : Key) : Prop :=
  (∀ lower ∈ minKey, lower ≤ key) ∧ ∀ upper ∈ maxKey, key ≤ upper

section Bounds

variable {keys : List Key}

theorem le_foldr_max (key : Key) :
    key ≤ keys.foldr max key ∧ ∀ other ∈ keys, other ≤ keys.foldr max key := by
  induction keys with
  | nil => simp
  | cons head keys ih =>
      rw [List.foldr_cons, List.forall_mem_cons]
      exact ⟨ih.1.trans (le_max_right _ _), le_max_left _ _,
        fun other otherMem => (ih.2 other otherMem).trans (le_max_right _ _)⟩

theorem foldr_min_le (key : Key) :
    keys.foldr min key ≤ key ∧ ∀ other ∈ keys, keys.foldr min key ≤ other := by
  induction keys with
  | nil => simp
  | cons head keys ih =>
      rw [List.foldr_cons, List.forall_mem_cons]
      exact ⟨(min_le_right _ _).trans ih.1, min_le_left _ _,
        fun other otherMem => (min_le_right _ _).trans (ih.2 other otherMem)⟩

/-- A missing bound is as good as one beyond all boundaries. -/
theorem exists_query {minKey maxKey : Option Key}
    (inOrder : ∀ lower ∈ minKey, ∀ upper ∈ maxKey, lower ≤ upper) :
    ∃ query : QueryExpression Key,
      boundaryTable keys minKey maxKey = boundaryTable keys query.minKey query.maxKey ∧
      ∀ key, (∃ bound ∈ keys, bound ≤ key) → (∃ bound ∈ keys, key ≤ bound) →
        Requested minKey maxKey key → query.matchesQuery key := by
  match minKey, maxKey with
  | none, none => exact ⟨.new, rfl, fun _ _ _ _ => rfl⟩
  | some lower, some upper =>
      refine ⟨⟨some (lower, upper), ?_⟩, rfl, ?_⟩
      · simpa using inOrder lower rfl upper rfl
      · intro key _ _ requested
        simpa [QueryExpression.matchesQuery] using ⟨requested.1 lower rfl, requested.2 upper rfl⟩
  | some lower, none =>
      have beyond := @le_foldr_max _ _ keys lower
      refine ⟨⟨some (lower, keys.foldr max lower), ?_⟩, ?_, ?_⟩
      · simpa using beyond.1
      · have all : bisectRight keys (keys.foldr max lower) = keys.length := by
          rw [bisectRight, List.takeWhile_eq_self_iff.mpr]
          simpa using beyond.2
        simp [boundaryTable, slice, QueryExpression.minKey, QueryExpression.maxKey, all,
          List.take_of_length_le]
      · rintro key _ ⟨bound, boundMem, leBound⟩ requested
        simpa [QueryExpression.matchesQuery] using
          ⟨requested.1 lower rfl, leBound.trans (beyond.2 bound boundMem)⟩
  | none, some upper =>
      have beyond := @foldr_min_le _ _ keys upper
      refine ⟨⟨some (keys.foldr min upper, upper), ?_⟩, ?_, ?_⟩
      · simpa using beyond.1
      · have noneBelow : bisectLeft keys (keys.foldr min upper) = 0 := by
          rw [bisectLeft, List.length_eq_zero_iff]
          rcases keys with _ | ⟨head, keys⟩
          · rfl
          · apply List.takeWhile_cons_of_neg
            simp
        simp [boundaryTable, slice, QueryExpression.minKey, QueryExpression.maxKey, noneBelow]
      · rintro key ⟨bound, boundMem, boundLe⟩ _ requested
        simpa [QueryExpression.matchesQuery] using
          ⟨(beyond.2 bound boundMem).trans boundLe, requested.2 upper rfl⟩

end Bounds

variable [DecidableEq Schema] {trees : IntervalTrees Key (Block Key Schema)}
  {index : BlockIntervalTree trees}

/-- Each group ends where the next one begins. -/
theorem isChain_groupsFrom (table : List Key) :
    (index.groupsFrom table).IsChain fun left right => left.keyMax = right.keyMin := by
  induction table with
  | nil => exact .nil
  | cons lower table ih =>
      rcases table with _ | ⟨upper, _ | ⟨next, rest⟩⟩
      · exact .nil
      · exact .singleton _
      · exact .cons_cons rfl ih

theorem mem_groupsFrom {table : List Key} (ascending : table.Pairwise (· < ·))
    {group : BlockGroup Key Schema} (groupMem : group ∈ index.groupsFrom table) :
    ∃ lower upper inclusive, lower ∈ table ∧ lower < upper ∧
      group = index.blockGroup lower upper inclusive ∧
      (inclusive = true → table.getLast? = some upper) := by
  induction table with
  | nil => cases groupMem
  | cons lower table ih =>
      rcases table with _ | ⟨upper, rest⟩
      · cases groupMem
      · rw [List.pairwise_cons] at ascending
        rw [groupsFrom, List.mem_cons] at groupMem
        rcases groupMem with rfl | groupMem
        · refine ⟨lower, upper, rest.isEmpty, List.mem_cons_self,
            ascending.1 upper List.mem_cons_self, rfl, ?_⟩
          intro isEmpty
          rw [List.isEmpty_iff.mp isEmpty]
          rfl
        · rcases ih ascending.2 groupMem with
            ⟨groupLower, groupUpper, inclusive, lowerMem, less, isGroup, atEnd⟩
          exact ⟨groupLower, groupUpper, inclusive, List.mem_cons_of_mem lower lowerMem, less,
            isGroup, by simpa using atEnd⟩

/-- Of the groups of a boundary table, exactly one contains a key between its ends. -/
theorem exists_unique_group {table : List Key} (ascending : table.Pairwise (· < ·)) {key : Key}
    {lower upper last : Key} {rest : List Key} (isTable : table = lower :: upper :: rest)
    (lowerLe : lower ≤ key) (isLast : table.getLast? = some last) (leLast : key ≤ last) :
    ∃ before group after, index.groupsFrom table = before ++ group :: after ∧
      group.keyInRange key = true ∧
      ∀ other ∈ before ++ after, other.keyInRange key = false := by
  induction rest generalizing table lower upper with
  | nil =>
      subst isTable
      cases isLast
      refine ⟨[], _, [], rfl, ?_, by simp⟩
      rw [BlockGroup.keyInRange_iff]
      exact ⟨lowerLe, leLast.lt_or_eq.imp_right fun same => ⟨rfl, same⟩⟩
  | cons next rest ih =>
      subst isTable
      rw [List.pairwise_cons] at ascending
      rcases lt_or_ge key upper with below | upperLe
      · refine ⟨[], _, _, rfl, BlockGroup.keyInRange_iff.mpr ⟨lowerLe, Or.inl below⟩, ?_⟩
        intro other otherMem
        rw [List.nil_append] at otherMem
        rcases mem_groupsFrom ascending.2 otherMem with
          ⟨otherLower, otherUpper, inclusive, lowerMem, _, rfl, _⟩
        rw [Bool.eq_false_iff, ne_eq, BlockGroup.keyInRange_iff]
        rintro ⟨otherLe, _⟩
        have upperLe : upper ≤ otherLower := by
          rcases List.mem_cons.mp lowerMem with rfl | isLater
          · exact le_rfl
          · exact ((List.pairwise_cons.mp ascending.2).1 otherLower isLater).le
        exact absurd (below.trans_le upperLe) (not_lt.mpr otherLe)
      · rcases ih ascending.2 rfl upperLe (by simpa using isLast) with
          ⟨before, group, after, split, inRange, others⟩
        refine ⟨index.blockGroup lower upper false :: before, group, after, ?_, inRange, ?_⟩
        · rw [groupsFrom, split]
          rfl
        · rw [List.cons_append, List.forall_mem_cons]
          refine ⟨?_, others⟩
          rw [Bool.eq_false_iff, ne_eq, BlockGroup.keyInRange_iff]
          rintro ⟨_, below | ⟨impossible, _⟩⟩
          · exact absurd below (not_lt.mpr upperLe)
          · cases impossible

/-- The block groups between two bounds index every key of the rows. -/
structure IndexesKeys (minKey maxKey : Option Key) (blocks : List (Block Key Schema))
    (groups : List (BlockGroup Key Schema)) : Prop where
  contiguous : groups.IsChain fun left right => left.keyMax = right.keyMin
  ascending : ∀ group ∈ groups, group.keyMin < group.keyMax
  unique : ∀ key, Requested minKey maxKey key →
    (∃ block ∈ blocks, block.row.keyMin ≤ key ∧ key ≤ block.row.keyMax) →
      ∃ before group after, groups = before ++ group :: after ∧ group.keyInRange key = true ∧
        (∀ other ∈ before ++ after, other.keyInRange key = false) ∧
        ∀ block ∈ blocks, block.row.keyMin ≤ key → key ≤ block.row.keyMax →
          block ∈ group.blocks

theorem Indexes.indexesKeys {blocks : List (Block Key Schema)} (indexes : index.Indexes blocks)
    (nonempty : ∀ block ∈ blocks, block.row.keyMin < block.row.keyMax)
    {minKey maxKey : Option Key}
    (inOrder : ∀ lower ∈ minKey, ∀ upper ∈ maxKey, lower ≤ upper) :
    IndexesKeys minKey maxKey blocks
      (index.groupsFrom (boundaryTable index.boundaries minKey maxKey)) := by
  have ascending := trees.ascending index.tree
  have tableAscending := @pairwise_boundaryTable _ _ _ ascending minKey maxKey
  refine ⟨isChain_groupsFrom _, ?_, ?_⟩
  · intro group groupMem
    rcases mem_groupsFrom tableAscending groupMem with ⟨lower, upper, inclusive, _, less, rfl, _⟩
    exact less
  · rintro key requested ⟨block, blockMem, lowerLe, leUpper⟩
    rcases @exists_query _ _ index.boundaries _ _ inOrder with ⟨query, sameTable, matches'⟩
    have intervalMem := (indexes.tree (intervalOf block)).mpr ⟨block, blockMem, rfl⟩
    have isMatch : query.matchesQuery key := by
      apply matches' key _ _ requested
      · exact ⟨block.row.keyMin, (trees.mem_boundaries _ _).mpr ⟨_, intervalMem, Or.inl rfl⟩,
          lowerLe⟩
      · exact ⟨block.row.keyMax, (trees.mem_boundaries _ _).mpr ⟨_, intervalMem, Or.inr rfl⟩,
          leUpper⟩
    have surrounded := indexes.surrounded blockMem (nonempty block blockMem) isMatch lowerLe leUpper
    rw [sameTable] at tableAscending ⊢
    rcases exists_boundaryTable_cons ascending surrounded with
      ⟨lower, upper, rest, isTable, tableLowerLe⟩
    have isLast : (boundaryTable index.boundaries query.minKey query.maxKey).getLast? =
        some ((upper :: rest).getLast (by simp)) := by
      rw [isTable, List.getLast?_cons_cons, List.getLast?_eq_getLast_of_ne_nil]
    have leLast : key ≤ (upper :: rest).getLast (by simp) := by
      rcases getLast_boundaryTable ascending isLast with atEnd | notReached
      · rcases surrounded.between with ⟨_, j, _, above, _, _, isAbove, _, leAbove⟩
        exact leAbove.trans (le_getLast_of_mem ascending (List.mem_of_getElem? isAbove) atEnd)
      · exact (notReached key isMatch).le
    rcases @exists_unique_group _ _ _ _ _ index _ tableAscending _ _ _ _ _ isTable tableLowerLe
      isLast leLast
      with ⟨before, group, after, split, inRange, others⟩
    refine ⟨before, group, after, split, inRange, others, ?_⟩
    intro other otherMem otherLower otherUpper
    have groupMem : group ∈ index.groupsFrom
        (boundaryTable index.boundaries query.minKey query.maxKey) := by
      rw [split]
      simp
    rcases mem_groupsFrom tableAscending groupMem with
      ⟨groupLower, groupUpper, inclusive, _, less, rfl, atEnd⟩
    exact indexes.mem_blocks_of_contains less atEnd otherMem (nonempty other otherMem) otherLower
      otherUpper isMatch inRange

/--
The rows of any SST files with more than one key each are indexed, and the block groups
between any two optional bounds that are in order index every key.
-/
theorem exists_blockGroups (trees : IntervalTrees Key (Block Key Schema))
    {manifests : List (List (SSTableRow Key) × DeltaContext Schema)}
    (nonempty : ∀ manifest ∈ manifests, ∀ row ∈ manifest.1, row.keyMin < row.keyMax)
    {minKey maxKey : Option Key}
    (inOrder : ∀ lower ∈ minKey, ∀ upper ∈ maxKey, lower ≤ upper) :
    ∃ index groups, addAllRows trees manifests = .ok index ∧
      index.getSortedBlockGroups minKey maxKey = .ok groups ∧
      IndexesKeys minKey maxKey (blocksOf manifests) groups.blockGroups := by
  rcases exists_addAllRows trees nonempty with ⟨index, isBuilt, indexes⟩
  have blocksNonempty : ∀ block ∈ blocksOf manifests, block.row.keyMin < block.row.keyMax := by
    intro block blockMem
    rcases List.mem_flatMap.mp blockMem with ⟨manifest, manifestMem, isRow⟩
    rcases List.mem_map.mp isRow with ⟨row, rowMem, rfl⟩
    exact nonempty manifest manifestMem row rowMem
  have accepted : ¬∃ lower ∈ minKey, ∃ upper ∈ maxKey, lower > upper := by
    rintro ⟨lower, isMin, upper, isMax, greater⟩
    exact absurd (inOrder lower isMin upper isMax) (not_le.mpr greater)
  refine ⟨index, _, isBuilt, if_neg accepted, ?_⟩
  have sameGroups := @map_zip_eq_groupsFrom _ _ _ _ index _ _
    (@pairwise_boundaryTable _ _ _ (trees.ascending index.tree) minKey maxKey)
  simp only [sameGroups]
  exact indexes.indexesKeys blocksNonempty inOrder

/-- Two files that share the key 3, of which the second one reaches beyond. -/
def touchingRows : List (List (SSTableRow ℕ) × DeltaContext ℕ) :=
  [([⟨1, 3, 0⟩, ⟨3, 5, 1⟩], ⟨0, 1, 0⟩)]

theorem exists_blockGroups_touching :
    ∃ index groups, addAllRows (listTrees ℕ (Block ℕ ℕ)) touchingRows = .ok index ∧
      index.getSortedBlockGroups (some 3) none = .ok groups ∧
      IndexesKeys (some 3) none (blocksOf touchingRows) groups.blockGroups :=
  exists_blockGroups (listTrees ℕ (Block ℕ ℕ)) (by decide) (by simp)

end Deltacat.Experimental.Rivulet.BlockIntervalTree
