import Deltacat.Exceptions
import Mathlib.Data.Set.Basic
import Mathlib.Tactic

/-!
# Query expressions

A query of a Rivulet dataset selects the keys of an inclusive range, or all keys.
A shard is an inclusive range too; a reader of one shard queries the dataset with
an expression built from its own query and the shard.
-/

namespace Deltacat.Experimental.Rivulet

universe u

variable {Key : Type u} [LinearOrder Key]

/-- A query; its range is built by `withRange` only, in ascending order. -/
structure QueryExpression (Key : Type u) [LinearOrder Key] where
  keyRange : Option (Key × Key)
  ascending : ∀ range ∈ keyRange, range.1 ≤ range.2

/-- A shard of a dataset; the source does not order its bounds. -/
structure RangeShard (Key : Type u) where
  minKey : Key
  maxKey : Key
  deriving DecidableEq, Repr

namespace QueryExpression

/-- `QueryExpression()`. -/
def new : QueryExpression Key where
  keyRange := none
  ascending := by simp

/-- The query of the range between two bounds. -/
def between (bound1 bound2 : Key) : QueryExpression Key where
  keyRange := some (min bound1 bound2, max bound1 bound2)
  ascending := by simp

def withRange (query : QueryExpression Key) (bound1 bound2 : Key) :
    Except Error (QueryExpression Key) :=
  if query.keyRange.isSome then .error .valueError else .ok (between bound1 bound2)

def withShard (query : QueryExpression Key) (shard : Option (RangeShard Key)) :
    Except Error (QueryExpression Key) :=
  match shard with
  | none => .ok query
  | some shard =>
      match query.keyRange with
      | none => new.withRange shard.minKey shard.maxKey
      | some (queryMin, queryMax) =>
          let minKey := if shard.minKey > queryMin then queryMin else shard.minKey
          let maxKey := if shard.maxKey < queryMax then queryMax else shard.maxKey
          new.withRange minKey maxKey

def minKey (query : QueryExpression Key) : Option Key :=
  query.keyRange.map (·.1)

def maxKey (query : QueryExpression Key) : Option Key :=
  query.keyRange.map (·.2)

def matchesQuery (query : QueryExpression Key) (key : Key) : Bool :=
  match query.keyRange with
  | none => true
  | some (minKey, maxKey) => minKey ≤ key ∧ key ≤ maxKey

def belowQueryRange (query : QueryExpression Key) (key : Key) : Bool :=
  match query.keyRange with
  | none => false
  | some (minKey, _) => minKey > key

@[simp]
theorem matchesQuery_new (key : Key) : (new : QueryExpression Key).matchesQuery key = true := rfl

@[simp]
theorem matchesQuery_between {bound1 bound2 key : Key} :
    (between bound1 bound2).matchesQuery key ↔
      min bound1 bound2 ≤ key ∧ key ≤ max bound1 bound2 := by
  simp [matchesQuery, between]

/-- The expression that `withShard` builds for a shard. -/
def shardQuery (query : QueryExpression Key) (shard : RangeShard Key) : QueryExpression Key :=
  match query.keyRange with
  | none => between shard.minKey shard.maxKey
  | some (queryMin, queryMax) => between (min shard.minKey queryMin) (max shard.maxKey queryMax)

theorem withShard_some (query : QueryExpression Key) (shard : RangeShard Key) :
    query.withShard (some shard) = .ok (query.shardQuery shard) := by
  rcases query with ⟨_ | ⟨queryMin, queryMax⟩, ascending⟩
  · rfl
  · have lowerEq : (if queryMin < shard.minKey then queryMin else shard.minKey) =
        min shard.minKey queryMin := by
      split_ifs with below
      · exact (min_eq_right below.le).symm
      · exact (min_eq_left (not_lt.mp below)).symm
    have upperEq : (if shard.maxKey < queryMax then queryMax else shard.maxKey) =
        max shard.maxKey queryMax := by
      split_ifs with below
      · exact (max_eq_right below.le).symm
      · exact (max_eq_left (not_lt.mp below)).symm
    simp only [withShard, gt_iff_lt, lowerEq, upperEq]
    rfl

theorem matchesQuery_shardQuery_of_none {query : QueryExpression Key} {shard : RangeShard Key}
    {key : Key} (noRange : query.keyRange = none) :
    (query.shardQuery shard).matchesQuery key ↔
      min shard.minKey shard.maxKey ≤ key ∧ key ≤ max shard.minKey shard.maxKey := by
  rw [shardQuery, noRange]
  exact matchesQuery_between

/-- With a range of its own, the query selects whatever lies between the bounds of both. -/
theorem matchesQuery_shardQuery_of_some {query : QueryExpression Key} {shard : RangeShard Key}
    {lower upper key : Key} (hasRange : query.keyRange = some (lower, upper)) :
    (query.shardQuery shard).matchesQuery key ↔
      (shard.minKey ≤ key ∨ lower ≤ key) ∧ (key ≤ shard.maxKey ∨ key ≤ upper) := by
  have ascending : lower ≤ upper := query.ascending _ hasRange
  have sorted : min shard.minKey lower ≤ max shard.maxKey upper :=
    (min_le_right _ _).trans (ascending.trans (le_max_right _ _))
  rw [shardQuery, hasRange]
  simp [min_eq_left sorted, max_eq_right sorted]

theorem matchesQuery_of_some {query : QueryExpression Key} {lower upper key : Key}
    (hasRange : query.keyRange = some (lower, upper)) :
    query.matchesQuery key ↔ lower ≤ key ∧ key ≤ upper := by
  simp [matchesQuery, hasRange]

theorem matchesQuery_of_none {query : QueryExpression Key} {key : Key}
    (noRange : query.keyRange = none) : query.matchesQuery key = true := by
  simp [matchesQuery, noRange]

theorem belowQueryRange_of_matchesQuery {query : QueryExpression Key} {key : Key}
    (isMatch : query.matchesQuery key) : query.belowQueryRange key = false := by
  rcases query with ⟨_ | ⟨minKey, maxKey⟩, ascending⟩
  · rfl
  · have bounds := of_decide_eq_true isMatch
    simpa [belowQueryRange] using bounds.1

/-- The keys that a query selects among those of a dataset. -/
def selected (query : QueryExpression Key) (keys : Set Key) : Set Key :=
  {key ∈ keys | query.matchesQuery key}

end QueryExpression

end Deltacat.Experimental.Rivulet
