import Deltacat.Experimental.Rivulet.QueryExpression
import Deltacat.Library.Rounding
import Mathlib

/-!
# Range shards

The key range of a dataset is split into shards by interpolating between its
ends, so that each shard can be read on its own.

The shards of an integer range begin one after the end of their predecessor. If
there are more shards than keys some of them are empty, with their bounds
exchanged, and a query exchanges them again. The shards of a string range begin
at the end of their predecessor. A query that has a range of its own is widened
by a shard, not narrowed. Hence reading all shards returns each record once only
for a query without a range, and only if there are enough integer keys
(`split_readsOnce_iff`).
-/

namespace Deltacat.Experimental.Rivulet

open Deltacat.Library

universe u

/-- A code point of a `str`. -/
abbrev CodePoint := Fin 0x110000

abbrev Text := List CodePoint

/-- `str.isspace` of a single character. -/
def isSpace (char : CodePoint) : Bool :=
  char.val ∈ [0x09, 0x0a, 0x0b, 0x0c, 0x0d, 0x1c, 0x1d, 0x1e, 0x1f, 0x20, 0x85, 0xa0, 0x1680,
    0x2000, 0x2001, 0x2002, 0x2003, 0x2004, 0x2005, 0x2006, 0x2007, 0x2008, 0x2009, 0x200a,
    0x2028, 0x2029, 0x202f, 0x205f, 0x3000]

def rstrip (text : Text) : Text :=
  text.rdropWhile isSpace

def ljust (text : Text) (width : ℕ) : Text :=
  text.rightpad width 0x20

def chr (value : ℤ) : Except Error CodePoint :=
  if inRange : 0 ≤ value ∧ value < 0x110000 then .ok ⟨value.toNat, by omega⟩
  else .error .valueError

/-- How `split` places the bounds of shards between keys of one type. -/
structure Interpolation (Key : Type u) where
  interpolate : Key → Key → ℤ → ℤ → Except Error Key
  /-- The start of a shard, from the interpolated start and the end of its predecessor. -/
  startAfter : Key → Key → Key

def interpolateNumeric (start stop step totalSteps : ℤ) : ℤ :=
  start + (stop - start) * step / totalSteps

/-- The character between two; the quotient and the sum are floating point numbers. -/
def interpolateChar (start stop : CodePoint) (step totalSteps : ℤ) : Except Error CodePoint :=
  chr (roundHalfEven (toDouble (start.val +
    toDouble ((stop.val - start.val) * step / totalSteps))))

def interpolateStr (start stop : Text) (step totalSteps : ℤ) : Except Error Text := do
  let maxLen := max start.length stop.length
  let chars ← ((ljust start maxLen).zip (ljust stop maxLen)).mapM fun pair =>
    interpolateChar pair.1 pair.2 step totalSteps
  return rstrip chars

def numeric : Interpolation ℤ where
  interpolate start stop step totalSteps := .ok (interpolateNumeric start stop step totalSteps)
  startAfter _ previousMax := previousMax + 1

-- The source means to begin after the predecessor here too, but tests for `int` a second time.
def textual : Interpolation Text where
  interpolate := interpolateStr
  startAfter start _ := start

namespace RangeShard

variable {Key : Type u}

/-- One pass of the loop of `split`. -/
def appendShard (rule : Interpolation Key) (globalMin globalMax : Key) (numShards : ℤ)
    (shards : List (RangeShard Key)) (i : ℕ) : Except Error (List (RangeShard Key)) := do
  let start ← rule.interpolate globalMin globalMax i numShards
  let stop ← rule.interpolate globalMin globalMax (i + 1) numShards
  let start :=
    match shards.getLast? with
    | none => start
    | some previous => rule.startAfter start previous.maxKey
  return shards ++ [⟨start, stop⟩]

def split [DecidableEq Key] (rule : Interpolation Key) (globalMin globalMax : Key)
    (numShards : ℤ) : Except Error (List (RangeShard Key)) :=
  if globalMin = globalMax ∨ numShards ≤ 1 then .ok [⟨globalMin, globalMax⟩]
  else (List.range numShards.toNat).foldlM (appendShard rule globalMin globalMax numShards) []

/-- The shard between two neighbouring points. -/
def atIndex (rule : Interpolation Key) (point : ℕ → Key) (i : ℕ) : RangeShard Key where
  minKey := if i = 0 then point 0 else rule.startAfter (point i) (point i)
  maxKey := point (i + 1)

theorem split_of_single [DecidableEq Key] (rule : Interpolation Key) {globalMin globalMax : Key}
    {numShards : ℤ}
    (single : globalMin = globalMax ∨ numShards ≤ 1) :
    split rule globalMin globalMax numShards = .ok [⟨globalMin, globalMax⟩] := by
  rw [split, if_pos single]

/-- Every pass appends the shard between two points. -/
theorem foldlM_appendShard {rule : Interpolation Key} {globalMin globalMax : Key} {count : ℕ}
    {point : ℕ → Key}
    (points : ∀ i ≤ count, rule.interpolate globalMin globalMax i count = .ok (point i))
    {done : ℕ} (doneLe : done ≤ count) :
    (List.range done).foldlM (appendShard rule globalMin globalMax count) [] =
      .ok ((List.range done).map (atIndex rule point)) := by
  induction done with
  | zero => rfl
  | succ done ih =>
      rw [List.range_succ, List.foldlM_append, ih (by omega), List.map_append]
      have start := points done (by omega)
      have stop := points (done + 1) doneLe
      push_cast at stop
      cases done with
      | zero =>
          simp only [Nat.cast_zero, zero_add] at start stop
          simp [appendShard, start, stop, atIndex, bind, Except.bind, pure, Except.pure]
      | succ done =>
          have last : ((List.range (done + 1)).map (atIndex rule point)).getLast? =
              some (atIndex rule point done) := by
            simp [List.range_succ]
          push_cast at start stop
          simp [appendShard, start, stop, last, atIndex, bind, Except.bind, pure, Except.pure]

theorem split_of_points [DecidableEq Key] {rule : Interpolation Key} {globalMin globalMax : Key}
    {count : ℕ} {point : ℕ → Key} (several : ¬(globalMin = globalMax ∨ (count : ℤ) ≤ 1))
    (points : ∀ i ≤ count, rule.interpolate globalMin globalMax i count = .ok (point i)) :
    split rule globalMin globalMax count = .ok ((List.range count).map (atIndex rule point)) := by
  rw [split, if_neg several, Int.toNat_natCast]
  exact foldlM_appendShard points le_rfl

end RangeShard

section ReadsOnce

variable {Key : Type u} [LinearOrder Key]

open QueryExpression

/-- Reading every shard with a query returns each record that the query selects once. -/
def ReadsOnce (shards : List (RangeShard Key)) (query : QueryExpression Key) (keys : Set Key) :
    Prop :=
  ∃ queries, shards.mapM (fun shard => query.withShard (some shard)) = .ok queries ∧
    queries.Pairwise (fun left right => Disjoint (left.selected keys) (right.selected keys)) ∧
      ⋃ shardQuery ∈ queries, shardQuery.selected keys = query.selected keys

/-- The shards of a range serve a query, whichever keys of the range a dataset has. -/
def SplitReadsOnce (rule : Interpolation Key) (globalMin globalMax : Key) (numShards : ℤ)
    (query : QueryExpression Key) : Prop :=
  ∃ shards, RangeShard.split rule globalMin globalMax numShards = .ok shards ∧
    ∀ keys ⊆ Set.Icc globalMin globalMax, ReadsOnce shards query keys

theorem mapM_withShard (query : QueryExpression Key) (shards : List (RangeShard Key)) :
    shards.mapM (fun shard => query.withShard (some shard)) =
      .ok (shards.map query.shardQuery) := by
  simp only [withShard_some]
  exact List.mapM_pure

/-- Each key within the range is selected by one shard if the query selects it, else by none. -/
theorem forall_readsOnce_iff {shards : List (RangeShard Key)} {query : QueryExpression Key}
    {globalMin globalMax : Key} :
    (∀ keys ⊆ Set.Icc globalMin globalMax, ReadsOnce shards query keys) ↔
      ∀ key ∈ Set.Icc globalMin globalMax,
        (shards.Pairwise fun left right => ¬((query.shardQuery left).matchesQuery key ∧
          (query.shardQuery right).matchesQuery key)) ∧
        ((∃ shard ∈ shards, (query.shardQuery shard).matchesQuery key) ↔
          query.matchesQuery key) := by
  constructor
  · intro all key inRange
    obtain ⟨queries, built, disjoint, union⟩ := all {key} (by simpa using inRange)
    obtain rfl : shards.map query.shardQuery = queries := by
      simpa [mapM_withShard] using built
    constructor
    · rw [List.pairwise_map] at disjoint
      refine disjoint.imp fun disjoint ⟨matchesLeft, matchesRight⟩ => ?_
      exact Set.disjoint_left.mp disjoint ⟨rfl, matchesLeft⟩ ⟨rfl, matchesRight⟩
    · have sameKey := Set.ext_iff.mp union key
      simpa [selected] using sameKey
  · intro all keys keysInRange
    refine ⟨_, mapM_withShard query shards, ?_, ?_⟩
    · rw [List.pairwise_map, List.pairwise_iff_getElem]
      intro i j iLt jLt less
      rw [Set.disjoint_left]
      intro key ⟨keyMem, matchesLeft⟩ ⟨_, matchesRight⟩
      have once := (all key (keysInRange keyMem)).1
      exact List.pairwise_iff_getElem.mp once i j iLt jLt less ⟨matchesLeft, matchesRight⟩
    · ext key
      simp only [selected, List.mem_map, Set.mem_iUnion, Set.mem_ofPred_eq, exists_prop]
      constructor
      · rintro ⟨_, ⟨shard, shardMem, rfl⟩, keyMem, matchesShard⟩
        exact ⟨keyMem, (all key (keysInRange keyMem)).2.mp ⟨shard, shardMem, matchesShard⟩⟩
      · rintro ⟨keyMem, matchesKey⟩
        obtain ⟨shard, shardMem, matchesShard⟩ := (all key (keysInRange keyMem)).2.mpr matchesKey
        exact ⟨_, ⟨shard, shardMem, rfl⟩, keyMem, matchesShard⟩

/-- The same of shards that are numbered. -/
theorem splitReadsOnce_iff_of_points {rule : Interpolation Key} {globalMin globalMax : Key}
    {count : ℕ} {point : ℕ → Key} {query : QueryExpression Key}
    (several : ¬(globalMin = globalMax ∨ (count : ℤ) ≤ 1))
    (points : ∀ i ≤ count, rule.interpolate globalMin globalMax i count = .ok (point i)) :
    SplitReadsOnce rule globalMin globalMax count query ↔
      ∀ key ∈ Set.Icc globalMin globalMax,
        (∀ i j, i < j → j < count →
          ¬((query.shardQuery (.atIndex rule point i)).matchesQuery key ∧
            (query.shardQuery (.atIndex rule point j)).matchesQuery key)) ∧
        ((∃ i < count, (query.shardQuery (.atIndex rule point i)).matchesQuery key) ↔
          query.matchesQuery key) := by
  simp only [SplitReadsOnce, RangeShard.split_of_points several points, Except.ok.injEq,
    exists_eq_left', forall_readsOnce_iff, List.pairwise_iff_getElem, List.length_map,
    List.getElem_map, List.length_range, List.getElem_range, List.mem_map, List.mem_range]
  refine forall₂_congr fun key _ => and_congr ⟨?_, ?_⟩ (iff_congr ⟨?_, ?_⟩ Iff.rfl)
  · exact fun once i j less jLt => once i j (less.trans jLt) jLt less
  · exact fun once i j _ jLt less => once i j less jLt
  · rintro ⟨_, ⟨i, iLt, rfl⟩, matchesShard⟩
    exact ⟨i, iLt, matchesShard⟩
  · rintro ⟨i, iLt, matchesShard⟩
    exact ⟨_, ⟨i, iLt, rfl⟩, matchesShard⟩

/-- A range that is not split is read with the wider one of the query and the range. -/
theorem splitReadsOnce_iff_of_single {rule : Interpolation Key} {globalMin globalMax : Key}
    {numShards : ℤ} {query : QueryExpression Key} (ascending : globalMin ≤ globalMax)
    (single : globalMin = globalMax ∨ numShards ≤ 1) :
    SplitReadsOnce rule globalMin globalMax numShards query ↔
      ∀ range ∈ query.keyRange, range.1 ≤ globalMin ∧ globalMax ≤ range.2 := by
  simp only [SplitReadsOnce, RangeShard.split_of_single rule single, Except.ok.injEq,
    exists_eq_left', forall_readsOnce_iff, List.pairwise_singleton, List.mem_singleton,
    exists_eq_left, true_and]
  rcases hasRange : query.keyRange with _ | ⟨lower, upper⟩
  · simp only [matchesQuery_shardQuery_of_none hasRange, matchesQuery_of_none hasRange]
    simp [ascending]
  · simp only [matchesQuery_shardQuery_of_some hasRange, matchesQuery_of_some hasRange,
      Option.mem_some_iff, forall_eq']
    constructor
    · intro all
      have lowest := (all globalMin ⟨le_rfl, ascending⟩).mp ⟨Or.inl le_rfl, Or.inl ascending⟩
      have greatest := (all globalMax ⟨ascending, le_rfl⟩).mp ⟨Or.inl ascending, Or.inl le_rfl⟩
      exact ⟨lowest.1, greatest.2⟩
    · rintro ⟨lowerLe, leUpper⟩ key ⟨minLe, leMax⟩
      exact ⟨fun _ => ⟨lowerLe.trans minLe, leMax.trans leUpper⟩,
        fun _ => ⟨Or.inl minLe, Or.inl leMax⟩⟩

/--
Several shards all widen a query that has a range, so a key in both ranges is
read by each of them.
-/
theorem splitReadsOnce_iff_of_range {rule : Interpolation Key} {globalMin globalMax : Key}
    {count : ℕ} {point : ℕ → Key} {query : QueryExpression Key} {lower upper : Key}
    (ascending : globalMin ≤ globalMax)
    (several : ¬(globalMin = globalMax ∨ (count : ℤ) ≤ 1))
    (points : ∀ i ≤ count, rule.interpolate globalMin globalMax i count = .ok (point i))
    (firstLe : point 0 ≤ globalMin) (hasRange : query.keyRange = some (lower, upper)) :
    SplitReadsOnce rule globalMin globalMax count query ↔
      upper < globalMin ∧ ∀ i, 0 < i → i ≤ count → point i < globalMin := by
  have twoShards : 1 < count := by
    have notSingle := (not_or.mp several).2
    omega
  have rangeAscending : lower ≤ upper := query.ascending _ hasRange
  rw [splitReadsOnce_iff_of_points several points]
  simp only [matchesQuery_shardQuery_of_some hasRange, matchesQuery_of_some hasRange]
  constructor
  · intro all
    have below : upper < globalMin := by
      by_contra notBelow
      rw [not_lt] at notBelow
      rcases le_or_gt lower globalMax with overlaps | above
      · obtain ⟨once, -⟩ := all (max lower globalMin) ⟨le_max_right _ _, max_le overlaps ascending⟩
        have within : max lower globalMin ≤ upper := max_le rangeAscending notBelow
        exact once 0 1 one_pos twoShards
          ⟨⟨Or.inr (le_max_left _ _), Or.inr within⟩, Or.inr (le_max_left _ _), Or.inr within⟩
      · obtain ⟨-, exactly⟩ := all globalMin ⟨le_rfl, ascending⟩
        have selects := exactly.mp ⟨0, by omega, Or.inl firstLe, Or.inr notBelow⟩
        exact absurd (selects.1.trans ascending) (not_le.mpr above)
    refine ⟨below, fun i positive iLe => ?_⟩
    by_contra notLess
    rw [not_lt] at notLess
    obtain ⟨i, rfl⟩ : ∃ previous, i = previous + 1 := ⟨i - 1, by omega⟩
    obtain ⟨-, exactly⟩ := all globalMin ⟨le_rfl, ascending⟩
    have selects := exactly.mp
      ⟨i, by omega, Or.inr (rangeAscending.trans below.le), Or.inl notLess⟩
    exact absurd selects.2 (not_le.mpr below)
  · rintro ⟨below, pointsBelow⟩ key ⟨minLe, -⟩
    have noShard : ∀ i < count, ¬(key ≤ point (i + 1) ∨ key ≤ upper) := by
      rintro i iLt (lePoint | leUpper)
      · exact absurd (minLe.trans lePoint) (not_le.mpr (pointsBelow (i + 1) (by omega) (by omega)))
      · exact absurd (minLe.trans leUpper) (not_le.mpr below)
    refine ⟨fun i j less jLt selects => noShard j jLt selects.2.2, ?_, ?_⟩
    · rintro ⟨i, iLt, selects⟩
      exact absurd selects.2 (noShard i iLt)
    · rintro ⟨-, leUpper⟩
      exact absurd (minLe.trans leUpper) (not_le.mpr below)

/--
Shards that share their bounds read a shared bound twice, unless all of them but
the last lie below the range.
-/
theorem splitReadsOnce_iff_of_shared {rule : Interpolation Key} {globalMin globalMax : Key}
    {count : ℕ} {point : ℕ → Key} {query : QueryExpression Key}
    (shared : ∀ start previous, rule.startAfter start previous = start)
    (ascending : globalMin ≤ globalMax)
    (several : ¬(globalMin = globalMax ∨ (count : ℤ) ≤ 1))
    (points : ∀ i ≤ count, rule.interpolate globalMin globalMax i count = .ok (point i))
    (firstLe : point 0 ≤ globalMin) (lastLe : point count ≤ globalMax)
    (noRange : query.keyRange = none) :
    SplitReadsOnce rule globalMin globalMax count query ↔
      point 0 < globalMin ∧ point count = globalMax ∧
        ∀ i, 0 < i → i < count → point i < globalMin := by
  obtain ⟨differ, notSingle⟩ := not_or.mp several
  have strict : globalMin < globalMax := lt_of_le_of_ne ascending differ
  have bounds : ∀ i, RangeShard.atIndex rule point i = ⟨point i, point (i + 1)⟩ := by
    intro i
    cases i <;> simp [RangeShard.atIndex, shared]
  rw [splitReadsOnce_iff_of_points several points]
  simp only [bounds, matchesQuery_shardQuery_of_none noRange, matchesQuery_of_none noRange,
    min_le_iff, le_max_iff, iff_true]
  constructor
  · intro all
    have outside : ∀ i, 0 < i → i < count → ¬(globalMin ≤ point i ∧ point i ≤ globalMax) := by
      rintro i positive iLt ⟨minLe, leMax⟩
      obtain ⟨i, rfl⟩ : ∃ previous, i = previous + 1 := ⟨i - 1, by omega⟩
      exact (all _ ⟨minLe, leMax⟩).1 i (i + 1) (by omega) iLt (by simp)
    -- Where the points first pass above the range and where they return, `globalMax` is read.
    have notAbove : ∀ i < count, ¬globalMax < point i := by
      by_contra someAbove
      push Not at someAbove
      classical
      obtain ⟨iLt, above⟩ := Nat.find_spec someAbove
      have firstAbove := fun j less => Nat.find_min someAbove (m := j) less
      generalize Nat.find someAbove = i at iLt above firstAbove
      have positive : 0 < i := by
        rcases Nat.eq_zero_or_pos i with rfl | positive
        · exact absurd (above.trans_le (firstLe.trans ascending)) (lt_irrefl _)
        · exact positive
      have returns : ∃ j, i ≤ j ∧ j < count ∧ globalMax < point j ∧ point (j + 1) ≤ globalMax := by
        by_contra noReturn
        push Not at noReturn
        have stays : ∀ j, i ≤ j → j ≤ count → globalMax < point j := by
          intro j iLe
          induction j, iLe using Nat.le_induction with
          | base => exact fun _ => above
          | succ j iLe ih => exact fun jLe => noReturn j iLe (by omega) (ih (by omega))
        exact absurd (stays count iLt.le le_rfl) (not_lt.mpr lastLe)
      obtain ⟨j, iLe, jLt, aboveAtJ, belowAfterJ⟩ := returns
      have belowBefore : point (i - 1) ≤ globalMax := by
        by_contra aboveBefore
        exact firstAbove (i - 1) (by omega) ⟨by omega, not_le.mp aboveBefore⟩
      have next : i - 1 + 1 = i := by omega
      apply (all globalMax ⟨ascending, le_rfl⟩).1 (i - 1) j (by omega) jLt
      rw [next]
      exact ⟨⟨Or.inl belowBefore, Or.inr above.le⟩, Or.inr belowAfterJ, Or.inl aboveAtJ.le⟩
    have below : ∀ i, 0 < i → i < count → point i < globalMin := by
      intro i positive iLt
      by_contra notBelow
      exact outside i positive iLt ⟨not_lt.mp notBelow, not_lt.mp (notAbove i iLt)⟩
    have leMin : ∀ i < count, point i ≤ globalMin := by
      intro i iLt
      rcases Nat.eq_zero_or_pos i with rfl | positive
      · exact firstLe
      · exact (below i positive iLt).le
    have isLast : point count = globalMax := by
      obtain ⟨i, iLt, -, reaches⟩ := (all globalMax ⟨ascending, le_rfl⟩).2
      have notStart := not_le.mpr ((leMin i iLt).trans_lt strict)
      have atEnd := reaches.resolve_left notStart
      have notInner : ¬i + 1 < count := fun inner =>
        absurd (atEnd.trans (leMin _ inner)) (not_le.mpr strict)
      have isCount : i + 1 = count := by omega
      exact le_antisymm lastLe (isCount ▸ atEnd)
    refine ⟨lt_of_le_of_ne firstLe fun atMin => ?_, isLast, below⟩
    have next : count - 1 + 1 = count := by omega
    apply (all globalMin ⟨le_rfl, ascending⟩).1 0 (count - 1) (by omega) (by omega)
    rw [next, isLast]
    exact ⟨⟨Or.inl firstLe, Or.inl atMin.ge⟩, Or.inl (leMin _ (by omega)), Or.inr ascending⟩
  · rintro ⟨firstBelow, isLast, below⟩ key ⟨minLe, leMax⟩
    have belowKey : ∀ i < count, point i < key := by
      intro i iLt
      rcases Nat.eq_zero_or_pos i with rfl | positive
      · exact firstBelow.trans_le minLe
      · exact (below i positive iLt).trans_le minLe
    have next : count - 1 + 1 = count := by omega
    constructor
    · rintro i j less jLt ⟨⟨-, leStart | leStop⟩, -⟩
      · exact absurd leStart (not_le.mpr (belowKey i (by omega)))
      · exact absurd leStop (not_le.mpr (belowKey (i + 1) (by omega)))
    · refine ⟨count - 1, by omega, Or.inl (belowKey _ (by omega)).le, Or.inr ?_⟩
      rw [next, isLast]
      exact leMax

end ReadsOnce

section Numeric

open QueryExpression

variable {globalMin globalMax : ℤ} {count : ℕ}

theorem interpolateNumeric_mono (positive : 0 < count) (ascending : globalMin ≤ globalMax)
    {i j : ℕ} (le : i ≤ j) :
    interpolateNumeric globalMin globalMax i count ≤
      interpolateNumeric globalMin globalMax j count := by
  apply add_le_add le_rfl
  apply Int.ediv_le_ediv (by omega)
  exact mul_le_mul_of_nonneg_left (by exact_mod_cast le) (by omega)

theorem interpolateNumeric_zero : interpolateNumeric globalMin globalMax 0 count = globalMin := by
  simp [interpolateNumeric]

theorem interpolateNumeric_count (positive : 0 < count) :
    interpolateNumeric globalMin globalMax count count = globalMax := by
  have nonzero : (count : ℤ) ≠ 0 := by omega
  rw [interpolateNumeric, Int.mul_ediv_cancel _ nonzero]
  omega

/-- With at least one key for each shard but the first, every shard after it has a key. -/
theorem interpolateNumeric_lt (enough : count ≤ globalMax - globalMin + 1) {i : ℕ}
    (positive : 0 < i) (iLt : i < count) :
    interpolateNumeric globalMin globalMax i count <
      interpolateNumeric globalMin globalMax (i + 1 : ℕ) count := by
  have countPos : (0 : ℤ) < count := by omega
  have iLtCast : (i : ℤ) < count := by exact_mod_cast iLt
  generalize width : globalMax - globalMin = span at enough
  simp only [interpolateNumeric, width]
  generalize floor : span * i / count = start
  have startLe : start * count ≤ span * i := floor ▸ Int.ediv_mul_le _ countPos.ne'
  apply add_lt_add_of_le_of_lt le_rfl
  apply Int.lt_of_add_one_le
  rw [Int.le_ediv_iff_mul_le countPos]
  push_cast
  rcases le_or_gt (count : ℤ) span with wide | narrow
  · calc (start + 1) * count = start * count + count := by ring
      _ ≤ span * i + span := add_le_add startLe wide
      _ = span * (i + 1) := by ring
  · have isSpan : span = count - 1 := by omega
    have startLt : start < i := by
      apply lt_of_mul_lt_mul_right _ countPos.le
      calc start * count ≤ span * i := startLe
        _ = i * count - i := by rw [isSpan]; ring
        _ < i * count := by omega
    calc (start + 1) * count ≤ i * count := mul_le_mul_of_nonneg_right startLt countPos.le
      _ ≤ i * count + (count - 1 - i) := by omega
      _ = span * (i + 1) := by rw [isSpan]; ring

/-- With fewer keys, some shard after the first one is empty. -/
theorem exists_interpolateNumeric_eq (ascending : globalMin ≤ globalMax)
    (few : globalMax - globalMin + 1 < count) :
    ∃ i, 0 < i ∧ i < count ∧ interpolateNumeric globalMin globalMax (i + 1 : ℕ) count =
      interpolateNumeric globalMin globalMax i count := by
  have countPos : 0 < count := by omega
  by_contra allDiffer
  push Not at allDiffer
  have grows : ∀ i, i < count → globalMin + i ≤
      interpolateNumeric globalMin globalMax (i + 1 : ℕ) count := by
    intro i iLt
    induction i with
    | zero =>
        have fromFirst := interpolateNumeric_mono countPos ascending (Nat.zero_le 1)
        rw [Nat.cast_zero, interpolateNumeric_zero] at fromFirst
        simpa using fromFirst
    | succ i ih =>
        have before := ih (by omega)
        have le := interpolateNumeric_mono countPos ascending (Nat.le_succ (i + 1))
        have differ := allDiffer (i + 1) (by omega) iLt
        push_cast at *
        omega
  have atEnd := grows (count - 1) (by omega)
  rw [Nat.sub_add_cancel countPos, interpolateNumeric_count countPos] at atEnd
  omega

/-- A query without a range is served by shards each of which has a key, bar the first. -/
theorem splitReadsOnce_numeric_iff_of_none {query : QueryExpression ℤ}
    (ascending : globalMin ≤ globalMax)
    (several : ¬(globalMin = globalMax ∨ (count : ℤ) ≤ 1)) (noRange : query.keyRange = none) :
    SplitReadsOnce numeric globalMin globalMax count query ↔
      count ≤ globalMax - globalMin + 1 := by
  have countPos : 0 < count := by
    have notSingle := (not_or.mp several).2
    omega
  rw [splitReadsOnce_iff_of_points several fun i _ => rfl]
  simp only [matchesQuery_shardQuery_of_none noRange, matchesQuery_of_none noRange, iff_true]
  have mono := fun {i j : ℕ} (le : i ≤ j) => interpolateNumeric_mono countPos ascending le
  have first : interpolateNumeric globalMin globalMax (0 : ℕ) count = globalMin :=
    interpolateNumeric_zero
  have last : interpolateNumeric globalMin globalMax count count = globalMax :=
    interpolateNumeric_count countPos
  constructor
  · intro all
    by_contra few
    obtain ⟨i, positive, iLt, isEmpty⟩ := exists_interpolateNumeric_eq ascending (not_le.mp few)
    obtain ⟨i, rfl⟩ : ∃ previous, i = previous + 1 := ⟨i - 1, by omega⟩
    have minLe := mono (Nat.zero_le (i + 1))
    have leMax := mono iLt.le
    rw [first] at minLe
    rw [last] at leMax
    -- The end of the shard before the empty one is read again by the empty one.
    apply (all _ ⟨minLe, leMax⟩).1 i (i + 1) (by omega) iLt
    have notFirst : i + 1 ≠ 0 := by omega
    simp only [RangeShard.atIndex, if_neg notFirst, numeric, isEmpty]
    refine ⟨⟨?_, ?_⟩, ?_, ?_⟩ <;> simp
  · intro enough key ⟨minLe, leMax⟩
    have bounds : ∀ i < count, (RangeShard.atIndex numeric
        (fun i => interpolateNumeric globalMin globalMax i count) i).minKey ≤
          (RangeShard.atIndex numeric
            (fun i => interpolateNumeric globalMin globalMax i count) i).maxKey := by
      intro i iLt
      rcases Nat.eq_zero_or_pos i with rfl | positive
      · exact mono (Nat.zero_le 1)
      · rw [RangeShard.atIndex, if_neg positive.ne']
        exact interpolateNumeric_lt enough positive iLt
    have afterFirst : ∀ i, 0 < i → (RangeShard.atIndex numeric
        (fun i => interpolateNumeric globalMin globalMax i count) i).minKey =
          interpolateNumeric globalMin globalMax i count + 1 := by
      intro i positive
      rw [RangeShard.atIndex, if_neg positive.ne']
      rfl
    constructor
    · rintro i j less jLt ⟨⟨-, leEnd⟩, startLe, -⟩
      rw [max_eq_right (bounds i (by omega))] at leEnd
      rw [min_eq_left (bounds j jLt), afterFirst j (by omega)] at startLe
      have ends := mono (show i + 1 ≤ j from less)
      change key ≤ interpolateNumeric globalMin globalMax (i + 1 : ℕ) count at leEnd
      omega
    · have reaches : ∃ i, key ≤ interpolateNumeric globalMin globalMax (i + 1 : ℕ) count :=
        ⟨count - 1, by rw [Nat.sub_add_cancel countPos, last]; exact leMax⟩
      have leEnd := Nat.find_spec reaches
      have firstEnd := fun j less => Nat.find_min reaches (m := j) less
      generalize Nat.find reaches = i at leEnd firstEnd
      have iLt : i < count := by
        by_contra notLess
        apply firstEnd (count - 1) (by omega)
        rw [Nat.sub_add_cancel countPos, last]
        exact leMax
      refine ⟨i, iLt, ?_, ?_⟩
      · rw [min_eq_left (bounds i iLt)]
        rcases Nat.eq_zero_or_pos i with rfl | positive
        · exact first.trans_le minLe
        · have notBefore := firstEnd (i - 1) (by omega)
          rw [Nat.sub_add_cancel positive] at notBefore
          rw [afterFirst i positive]
          omega
      · rw [max_eq_right (bounds i iLt)]
        exact leEnd

end Numeric

section Textual

open QueryExpression

variable {totalSteps : ℤ}

theorem chr_val (char : CodePoint) : chr char.val = .ok char := by
  have inRange : 0 ≤ (char.val : ℤ) ∧ (char.val : ℤ) < 0x110000 := by
    have lt := char.isLt
    omega
  rw [chr, dif_pos inRange]
  rfl

/-- The interpolated number stays between the code points. -/
theorem toDouble_interpolate_mem (start stop : CodePoint) {step : ℤ} (nonneg : 0 ≤ step)
    (stepLe : step ≤ totalSteps) (positive : 0 < totalSteps) :
    0 ≤ toDouble (start.val + toDouble ((stop.val - start.val) * step / totalSteps)) ∧
      toDouble (start.val + toDouble ((stop.val - start.val) * step / totalSteps)) ≤
        (0x110000 - 1 : ℤ) := by
  have startLe : (start.val : ℚ) ≤ 0x110000 - 1 := by
    have lt : (start.val : ℚ) + 1 ≤ (0x110000 : ℕ) := by exact_mod_cast start.isLt
    push_cast at lt
    linarith
  have stopLe : (stop.val : ℚ) ≤ 0x110000 - 1 := by
    have lt : (stop.val : ℚ) + 1 ≤ (0x110000 : ℕ) := by exact_mod_cast stop.isLt
    push_cast at lt
    linarith
  have startNonneg : (0 : ℚ) ≤ start.val := by positivity
  have stopNonneg : (0 : ℚ) ≤ stop.val := by positivity
  have positiveCast : (0 : ℚ) < totalSteps := by exact_mod_cast positive
  have ratioNonneg : (0 : ℚ) ≤ step / totalSteps := by positivity
  have ratioLe : (step : ℚ) / totalSteps ≤ 1 := by
    rw [div_le_one positiveCast]
    exact_mod_cast stepLe
  rw [mul_div_assoc]
  generalize (step : ℚ) / totalSteps = ratio at ratioNonneg ratioLe
  generalize part : ((stop.val : ℚ) - start.val) * ratio = difference
  -- The difference and then the sum lie between integers that are floating point numbers.
  have lower : ((-start.val : ℤ) : ℚ) ≤ difference := by
    push_cast
    nlinarith
  have upper : difference ≤ ((0x110000 - 1 - start.val : ℤ) : ℚ) := by
    push_cast
    nlinarith
  have small : |difference| < 2 ^ 53 := by
    push_cast at lower upper
    rw [abs_lt]
    constructor <;> linarith
  have lowerRounded := le_toDouble small lower
  have upperRounded := toDouble_le small upper
  generalize toDouble difference = rounded at lowerRounded upperRounded
  push_cast at lowerRounded upperRounded
  have sumSmall : |(start.val : ℚ) + rounded| < 2 ^ 53 := by
    rw [abs_lt]
    constructor <;> linarith
  constructor
  · have sumNonneg : ((0 : ℤ) : ℚ) ≤ start.val + rounded := by
      push_cast
      linarith
    simpa using le_toDouble sumSmall sumNonneg
  · apply toDouble_le sumSmall
    push_cast
    linarith

theorem exists_interpolateChar (start stop : CodePoint) {step : ℤ} (nonneg : 0 ≤ step)
    (stepLe : step ≤ totalSteps) (positive : 0 < totalSteps) :
    ∃ char, interpolateChar start stop step totalSteps = .ok char := by
  obtain ⟨lower, upper⟩ := toDouble_interpolate_mem start stop nonneg stepLe positive
  have lowerRounded : 0 ≤ roundHalfEven (toDouble (start.val +
      toDouble ((stop.val - start.val) * step / totalSteps))) :=
    le_roundHalfEven (by simpa using lower)
  have upperRounded := roundHalfEven_le upper
  rw [interpolateChar, chr, dif_pos ⟨lowerRounded, by omega⟩]
  exact ⟨_, rfl⟩

theorem toDouble_codePoint (char : CodePoint) : toDouble (char.val : ℤ) = (char.val : ℤ) := by
  apply toDouble_intCast
  have lt := char.isLt
  rw [abs_lt]
  constructor <;> omega

theorem interpolateChar_zero (start stop : CodePoint) :
    interpolateChar start stop 0 totalSteps = .ok start := by
  have atStart : toDouble (start.val + toDouble ((stop.val - start.val) * (0 : ℤ) / totalSteps)) =
      (start.val : ℤ) := by
    rw [← toDouble_codePoint start]
    simp [toDouble]
  rw [interpolateChar, atStart, roundHalfEven_intCast]
  exact chr_val start

theorem interpolateChar_total (start stop : CodePoint) (positive : 0 < totalSteps) :
    interpolateChar start stop totalSteps totalSteps = .ok stop := by
  have nonzero : (totalSteps : ℚ) ≠ 0 := by exact_mod_cast positive.ne'
  have difference : toDouble ((stop.val : ℤ) - (start.val : ℤ) : ℤ) =
      ((stop.val : ℤ) - (start.val : ℤ) : ℤ) := by
    apply toDouble_intCast
    have startLt := start.isLt
    have stopLt := stop.isLt
    rw [abs_lt]
    constructor <;> omega
  have atStop : toDouble (start.val +
      toDouble ((stop.val - start.val) * totalSteps / totalSteps)) = (stop.val : ℤ) := by
    rw [mul_div_cancel_right₀ _ nonzero]
    push_cast at difference
    rw [difference, add_sub_cancel]
    exact toDouble_codePoint stop
  rw [interpolateChar, atStop, roundHalfEven_intCast]
  exact chr_val stop

theorem rstrip_ljust (text : Text) (width : ℕ) : rstrip (ljust text width) = rstrip text := by
  rw [rstrip, ljust, List.rightpad]
  generalize width - text.length = padding
  induction padding with
  | zero => simp [rstrip]
  | succ padding ih =>
      have isSpaceChar : isSpace 0x20 := by decide
      rw [List.replicate_succ', ← List.append_assoc, List.rdropWhile_concat_pos _ _ _ isSpaceChar]
      exact ih

theorem rstrip_le (text : Text) : rstrip text ≤ text := by
  have parts := List.rdropWhile_append_rtakeWhile (p := isSpace) (l := text)
  rw [rstrip]
  nth_rewrite 2 [← parts]
  generalize text.rdropWhile isSpace = stem
  generalize text.rtakeWhile isSpace = rest
  induction stem with
  | nil =>
      cases rest with
      | nil => exact le_rfl
      | cons head rest => exact (List.nil_lt_cons head rest).le
  | cons head stem ih => exact List.cons_le_cons head ih

theorem mapM_eq_ok {Item Value : Type} {read : Item → Except Error Value} {value : Item → Value}
    {items : List Item} (reads : ∀ item ∈ items, read item = .ok (value item)) :
    items.mapM read = .ok (items.map value) := by
  induction items with
  | nil => rfl
  | cons head items ih =>
      have tail := ih fun item itemMem => reads item (List.mem_cons_of_mem head itemMem)
      simp [List.mapM_cons, reads head, tail, bind, Except.bind, pure, Except.pure]

theorem exists_textual_points (globalMin globalMax : Text) {count : ℕ} (positive : 0 < count) :
    ∃ point : ℕ → Text,
      (∀ i ≤ count, textual.interpolate globalMin globalMax i count = .ok (point i)) ∧
        point 0 = rstrip globalMin ∧ point count = rstrip globalMax := by
  have countPos : (0 : ℤ) < count := by omega
  have exists_char : ∀ (i : ℕ) (pair : CodePoint × CodePoint), ∃ char, i ≤ count →
      interpolateChar pair.1 pair.2 i count = .ok char := by
    intro i pair
    by_cases iLe : i ≤ count
    · obtain ⟨char, isChar⟩ := exists_interpolateChar pair.1 pair.2 (by omega : (0 : ℤ) ≤ i)
        (by exact_mod_cast iLe) countPos
      exact ⟨char, fun _ => isChar⟩
    · exact ⟨0, fun le => absurd le iLe⟩
  choose char isChar using exists_char
  generalize width : max globalMin.length globalMax.length = maxLen
  have sameLength : (ljust globalMin maxLen).length = (ljust globalMax maxLen).length := by
    simp [ljust]
    omega
  refine ⟨fun i => rstrip (((ljust globalMin maxLen).zip (ljust globalMax maxLen)).map (char i)),
    ?_, ?_, ?_⟩
  · intro i iLe
    have chars : ((ljust globalMin maxLen).zip (ljust globalMax maxLen)).mapM
        (fun pair => interpolateChar pair.1 pair.2 i count) = .ok _ :=
      mapM_eq_ok fun pair _ => isChar i pair iLe
    simp [textual, interpolateStr, width, chars, bind, Except.bind, pure, Except.pure]
  · have first : char 0 = Prod.fst := by
      funext pair
      have isFirst := isChar 0 pair (by omega)
      rw [Nat.cast_zero, interpolateChar_zero] at isFirst
      exact (Except.ok.inj isFirst).symm
    simp only [first, List.map_fst_zip sameLength.le, rstrip_ljust]
  · have last : char count = Prod.snd := by
      funext pair
      have isLast := isChar count pair le_rfl
      rw [interpolateChar_total _ _ countPos] at isLast
      exact (Except.ok.inj isLast).symm
    simp only [last, List.map_snd_zip sameLength.ge, rstrip_ljust]

end Textual

/-- Whether the shards of an integer range serve a query. -/
def numericServes (globalMin globalMax numShards : ℤ) (query : QueryExpression ℤ) : Prop :=
  if globalMin = globalMax ∨ numShards ≤ 1 then
    ∀ range ∈ query.keyRange, range.1 ≤ globalMin ∧ globalMax ≤ range.2
  else query.keyRange = none ∧ numShards ≤ globalMax - globalMin + 1

/--
Whether the shards of a string range serve a query. If the range is split, they
do only if trailing whitespace puts the inner bounds below the range.
-/
def textualServes (globalMin globalMax : Text) (numShards : ℤ) (query : QueryExpression Text) :
    Prop :=
  if globalMin = globalMax ∨ numShards ≤ 1 then
    ∀ range ∈ query.keyRange, range.1 ≤ globalMin ∧ globalMax ≤ range.2
  else
    (∀ i, 0 < i → i < numShards →
      ∃ bound, interpolateStr globalMin globalMax i numShards = .ok bound ∧ bound < globalMin) ∧
    match query.keyRange with
    | none => rstrip globalMin ≠ globalMin ∧ rstrip globalMax = globalMax
    | some range => range.2 < globalMin ∧ rstrip globalMax < globalMin

theorem splitReadsOnce_numeric_iff {globalMin globalMax numShards : ℤ}
    {query : QueryExpression ℤ} (ascending : globalMin ≤ globalMax) :
    SplitReadsOnce numeric globalMin globalMax numShards query ↔
      numericServes globalMin globalMax numShards query := by
  rw [numericServes]
  split_ifs with single
  · exact splitReadsOnce_iff_of_single ascending single
  · obtain ⟨count, rfl⟩ : ∃ count : ℕ, numShards = count := Int.eq_ofNat_of_zero_le (by omega)
    rcases hasRange : query.keyRange with _ | ⟨lower, upper⟩
    · rw [splitReadsOnce_numeric_iff_of_none ascending single hasRange]
      simp
    · have points : ∀ i ≤ count, numeric.interpolate globalMin globalMax i count =
          .ok (interpolateNumeric globalMin globalMax i count) := fun i _ => rfl
      have firstLe : interpolateNumeric globalMin globalMax (0 : ℕ) count ≤ globalMin :=
        interpolateNumeric_zero.le
      rw [splitReadsOnce_iff_of_range ascending single points firstLe hasRange]
      constructor
      · rintro ⟨-, below⟩
        have lastBelow := below count (by omega) le_rfl
        rw [interpolateNumeric_count (by omega)] at lastBelow
        omega
      · rintro ⟨isNone, -⟩
        cases isNone

theorem splitReadsOnce_textual_iff {globalMin globalMax : Text} {numShards : ℤ}
    {query : QueryExpression Text} (ascending : globalMin ≤ globalMax) :
    SplitReadsOnce textual globalMin globalMax numShards query ↔
      textualServes globalMin globalMax numShards query := by
  rw [textualServes]
  split_ifs with single
  · exact splitReadsOnce_iff_of_single ascending single
  · obtain ⟨count, rfl⟩ : ∃ count : ℕ, numShards = count := Int.eq_ofNat_of_zero_le (by omega)
    obtain ⟨point, points, isFirst, isLast⟩ :=
      exists_textual_points globalMin globalMax (by omega : 0 < count)
    have firstLe : point 0 ≤ globalMin := isFirst ▸ rstrip_le globalMin
    have lastLe : point count ≤ globalMax := isLast ▸ rstrip_le globalMax
    have inner : (∀ i : ℤ, 0 < i → i < count →
        ∃ bound, interpolateStr globalMin globalMax i count = .ok bound ∧ bound < globalMin) ↔
          ∀ i : ℕ, 0 < i → i < count → point i < globalMin := by
      constructor
      · intro below i positive iLt
        obtain ⟨bound, isBound, boundLt⟩ := below i (by omega) (by omega)
        obtain rfl : point i = bound := Except.ok.inj ((points i iLt.le).symm.trans isBound)
        exact boundLt
      · intro below i positive iLt
        obtain ⟨i, rfl⟩ : ∃ index : ℕ, i = index := Int.eq_ofNat_of_zero_le (by omega)
        exact ⟨point i, points i (by omega), below i (by omega) (by omega)⟩
    rw [inner]
    rcases hasRange : query.keyRange with _ | ⟨lower, upper⟩
    · rw [splitReadsOnce_iff_of_shared (fun _ _ => rfl) ascending single points firstLe lastLe
        hasRange, isLast, isFirst]
      constructor
      · exact fun ⟨firstBelow, lastAt, below⟩ => ⟨below, firstBelow.ne, lastAt⟩
      · exact fun ⟨below, stripped, lastAt⟩ =>
          ⟨lt_of_le_of_ne (rstrip_le globalMin) stripped, lastAt, below⟩
    · rw [splitReadsOnce_iff_of_range ascending single points firstLe hasRange, ← isLast]
      constructor
      · rintro ⟨upperBelow, below⟩
        exact ⟨fun i positive iLt => below i positive iLt.le, upperBelow,
          below count (by omega) le_rfl⟩
      · rintro ⟨below, upperBelow, lastBelow⟩
        refine ⟨upperBelow, fun i positive iLe => ?_⟩
        rcases iLe.lt_or_eq with iLt | rfl
        · exact below i positive iLt
        · exact lastBelow

/--
The shards of a range are read once each with a query, whatever keys the dataset
has, exactly if they serve the query.
-/
theorem split_readsOnce_iff (numShards : ℤ) :
    (∀ (globalMin globalMax : ℤ) (query : QueryExpression ℤ), globalMin ≤ globalMax →
      (SplitReadsOnce numeric globalMin globalMax numShards query ↔
        numericServes globalMin globalMax numShards query)) ∧
    ∀ (globalMin globalMax : Text) (query : QueryExpression Text),
      globalMin ≤ globalMax →
        (SplitReadsOnce textual globalMin globalMax numShards query ↔
          textualServes globalMin globalMax numShards query) :=
  ⟨fun _ _ _ ascending => splitReadsOnce_numeric_iff ascending,
    fun _ _ _ ascending => splitReadsOnce_textual_iff ascending⟩

/-- Integer keys from 1 to 10 in two shards, and string keys from `a` to `c` in one. -/
theorem split_readsOnce_iff_served :
    SplitReadsOnce numeric 1 10 2 .new ∧ SplitReadsOnce textual [0x61] [0x63] 1 .new := by
  constructor
  · apply ((split_readsOnce_iff 2).1 1 10 .new (by decide)).mpr
    simp [numericServes, QueryExpression.new]
  · apply ((split_readsOnce_iff 1).2 [0x61] [0x63] .new (by decide)).mpr
    simp [textualServes, QueryExpression.new]

/--
The keys 3 and 4 are read by both shards of the keys from 1 to 10; the keys 1 and 2
cannot be split into four shards; the shards of the keys from `a` to `c` both have
their common bound.
-/
theorem not_split_readsOnce :
    ¬SplitReadsOnce numeric 1 10 2 (.between 3 4) ∧ ¬SplitReadsOnce numeric 1 2 4 .new ∧
      ¬SplitReadsOnce textual [0x61] [0x63] 2 .new := by
  refine ⟨?_, ?_, ?_⟩
  · rw [splitReadsOnce_numeric_iff (by decide)]
    simp [numericServes, QueryExpression.between]
  · rw [splitReadsOnce_numeric_iff (by decide)]
    simp [numericServes, QueryExpression.new]
  · have notStripped : rstrip [0x61] = [0x61] := by decide
    rw [splitReadsOnce_textual_iff (by decide)]
    simp [textualServes, QueryExpression.new, notStripped]

end Deltacat.Experimental.Rivulet
