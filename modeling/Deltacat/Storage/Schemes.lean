import Deltacat.Exceptions
import Mathlib.Tactic

/-!
# Partition and sort schemes

Partition keys and sort keys derive values from the fields of a schema by transforms. What
locates a field is left open: a name, a path of names or an identifier. A scheme lists keys,
or has none for data that is not partitioned or not sorted.
-/

namespace Deltacat.Storage

inductive TransformName
  | identity
  | bucket
  | year
  | month
  | day
  | hour
  | truncate
  | void
  | unknown
  deriving DecidableEq

inductive BucketingStrategy
  | default
  | iceberg
  deriving DecidableEq

inductive TruncateStrategy
  | default
  | iceberg
  deriving DecidableEq

inductive TransformParameters
  | bucket (numBuckets : ℤ) (bucketingStrategy : BucketingStrategy)
  | truncate (width : ℤ) (truncateStrategy : TruncateStrategy)
  deriving DecidableEq

/--
A transform is a dictionary, and is compared as one. It has no return type if it keeps the
type of its field.
-/
structure Transform where
  name : TransformName
  parameters : Option TransformParameters := none
  returnType : Option String := none
  deriving DecidableEq

namespace Transform

/-- `of` of the class of transforms that has the name, without parameters. -/
def of : TransformName → Transform
  | .year => { name := .year, returnType := some "int32" }
  | .month => { name := .month, returnType := some "int32" }
  | .day => { name := .day, returnType := some "int32" }
  | .hour => { name := .hour, returnType := some "int32" }
  | .void => { name := .void, returnType := some "null" }
  | name => { name := name }

/-- `BucketTransform.of`. -/
def bucketOf (numBuckets : ℤ) (bucketingStrategy : BucketingStrategy) : Transform where
  name := .bucket
  parameters := some (.bucket numBuckets bucketingStrategy)
  returnType := some "int32"

/-- `TruncateTransform.of`. -/
def truncateOf (width : ℤ) (truncateStrategy : TruncateStrategy) : Transform where
  name := .truncate
  parameters := some (.truncate width truncateStrategy)

end Transform

structure PartitionKey (Locator : Type) where
  key : List Locator
  name : Option String := none
  fieldId : Option ℤ := none
  transform : Option Transform := none
  deriving DecidableEq

structure PartitionScheme (Locator : Type) where
  keys : Option (List (PartitionKey Locator))
  name : Option String := none
  id : Option String := none
  deriving DecidableEq

inductive SortOrder
  | ascending
  | descending
  deriving DecidableEq

inductive NullOrder
  | atStart
  | atEnd
  deriving DecidableEq

structure SortKey (Locator : Type) where
  key : Option (List Locator)
  sortOrder : SortOrder := .ascending
  nullOrder : NullOrder := .atEnd
  transform : Option Transform := none
  deriving DecidableEq

structure SortScheme (Locator : Type) where
  keys : Option (List (SortKey Locator))
  name : Option String := none
  id : Option String := none
  deriving DecidableEq

section Equivalence

/-- The comparison of two lists of keys by their positions, which fails beyond the second list. -/
def equivalentKeys {Key : Type} (equivalent : Key → Key → Bool) :
    List Key → List Key → Except Error Bool
  | [], _ => .ok true
  | _ :: _, [] => .error .indexError
  | key :: keys, other :: others =>
      if equivalent key other then equivalentKeys equivalent keys others else .ok false

/-- `equivalent_to` of schemes, with what the comparison of their identifiers gives. -/
def equivalentSchemes {Key : Type} (equivalent : Key → Key → Bool)
    (keys otherKeys : Option (List Key)) (sameIdentifiers : Bool) : Except Error Bool :=
  match keys, otherKeys with
  | none, none => .ok sameIdentifiers
  | none, some _ | some _, none => .ok false
  | some keys, some otherKeys => do
      if ← equivalentKeys equivalent keys otherKeys then return sameIdentifiers else return false

variable {Locator : Type} [DecidableEq Locator]

/-- `PartitionKey.equivalent_to`: `and` binds tighter than `or`. -/
def PartitionKey.equivalentTo (key other : PartitionKey Locator) (checkIdentifiers : Bool) :
    Bool :=
  key.key = other.key ∧ key.transform = other.transform ∧ ¬checkIdentifiers ∨
    key.name = other.name ∧ key.fieldId = other.fieldId

def PartitionScheme.equivalentTo (scheme other : PartitionScheme Locator)
    (checkIdentifiers : Bool) : Except Error Bool :=
  equivalentSchemes (·.equivalentTo · checkIdentifiers) scheme.keys other.keys
    (¬checkIdentifiers ∨ scheme.name = other.name ∧ scheme.id = other.id)

def SortKey.equivalentTo (key other : SortKey Locator) : Bool :=
  key.key = other.key ∧ key.transform = other.transform ∧ key.sortOrder = other.sortOrder ∧
    key.nullOrder = other.nullOrder

def SortScheme.equivalentTo (scheme other : SortScheme Locator) (checkIdentifiers : Bool) :
    Except Error Bool :=
  equivalentSchemes SortKey.equivalentTo scheme.keys other.keys
    (¬checkIdentifiers ∨ scheme.name = other.name ∧ scheme.id = other.id)

end Equivalence

section Construction

/-- What `PartitionScheme.of` keeps apart: the fields and the class of the transform. -/
def PartitionKey.keyTransformPair (key : PartitionKey String) :
    List String × Option TransformName :=
  (key.key, key.transform.map Transform.name)

/-- The loop of `PartitionScheme.of` over the keys. -/
def PartitionScheme.checkKeys (seenPairs : List (List String × Option TransformName))
    (seenNames : List String) : List (PartitionKey String) → Except Error Unit
  | [] => .ok ()
  | key :: keys =>
      if key.keyTransformPair ∈ seenPairs then .error .valueError
      else match key.name with
        | none => checkKeys (key.keyTransformPair :: seenPairs) seenNames keys
        | some name =>
            if name ∈ seenNames then .error .valueError
            else checkKeys (key.keyTransformPair :: seenPairs) (name :: seenNames) keys

def PartitionScheme.of (keys : Option (List (PartitionKey String))) (name id : Option String) :
    Except Error (PartitionScheme String) :=
  match keys with
  | none => .ok { keys := none, name := name, id := id }
  | some [] => .error .valueError
  | some (key :: keys) =>
      (checkKeys [] [] (key :: keys)).map fun _ =>
        { keys := some (key :: keys), name := name, id := id }

/-- The loop of `SortScheme.of` over the keys. -/
def SortScheme.checkKeys (keyNames : List String) :
    List (SortKey String) → Except Error Unit
  | [] => .ok ()
  | key :: keys =>
      match key.key with
      | none => .error .typeError
      | some [] => .error .indexError
      | some (name :: _) =>
          if name ∈ keyNames then .error .valueError else checkKeys (name :: keyNames) keys

def SortScheme.of (keys : Option (List (SortKey String))) (name id : Option String) :
    Except Error (SortScheme String) :=
  match keys with
  | none => .ok { keys := none, name := name, id := id }
  | some [] => .error .valueError
  | some (key :: keys) =>
      (checkKeys [] (key :: keys)).map fun _ =>
        { keys := some (key :: keys), name := name, id := id }

/-- The values are distinct, and none was seen before. -/
def AreNew {Value : Type} (seen values : List Value) : Prop :=
  values.Nodup ∧ ∀ value ∈ values, value ∉ seen

theorem areNew_nil {Value : Type} {values : List Value} : AreNew [] values ↔ values.Nodup :=
  and_iff_left fun _ _ => List.not_mem_nil

theorem areNew_cons {Value : Type} {seen values : List Value} {value : Value} :
    AreNew seen (value :: values) ↔ value ∉ seen ∧ AreNew (value :: seen) values := by
  unfold AreNew
  constructor
  · rintro ⟨isNodup, areNew⟩
    rcases List.nodup_cons.mp isNodup with ⟨notLater, laterNodup⟩
    refine ⟨areNew value List.mem_cons_self, laterNodup, fun later laterMem isSeen => ?_⟩
    rcases List.mem_cons.mp isSeen with rfl | isSeen
    · exact notLater laterMem
    · exact areNew later (List.mem_cons_of_mem _ laterMem) isSeen
  · rintro ⟨isNew, laterNodup, areNew⟩
    refine ⟨List.nodup_cons.mpr ⟨fun valueMem => ?_, laterNodup⟩, fun later laterMem isSeen => ?_⟩
    · exact areNew value valueMem List.mem_cons_self
    · rcases List.mem_cons.mp laterMem with rfl | laterMem
      · exact isNew isSeen
      · exact areNew later laterMem (List.mem_cons_of_mem _ isSeen)

theorem PartitionScheme.checkKeys_eq_ok {keys : List (PartitionKey String)}
    {seenPairs : List (List String × Option TransformName)} {seenNames : List String} :
    PartitionScheme.checkKeys seenPairs seenNames keys = .ok () ↔
      AreNew seenPairs (keys.map PartitionKey.keyTransformPair) ∧
        AreNew seenNames (keys.filterMap PartitionKey.name) := by
  induction keys generalizing seenPairs seenNames with
  | nil => simp [checkKeys, AreNew]
  | cons key keys ih =>
      rw [checkKeys, List.map_cons, areNew_cons]
      by_cases isSeen : key.keyTransformPair ∈ seenPairs
      · simp [isSeen]
      · rw [if_neg isSeen, and_iff_right isSeen]
        cases isName : key.name with
        | none =>
            rw [List.filterMap_cons_none isName]
            exact ih
        | some name =>
            rw [List.filterMap_cons_some isName, areNew_cons]
            by_cases nameSeen : name ∈ seenNames
            · simp [nameSeen]
            · rw [and_iff_right nameSeen]
              simp only [if_neg nameSeen]
              exact ih

/-- A scheme is made of keys that are distinct, and have distinct names where they have any. -/
theorem PartitionScheme.of_eq_ok {keys : List (PartitionKey String)}
    {scheme : PartitionScheme String} {name id : Option String} (isKeys : keys ≠ []) :
    PartitionScheme.of (some keys) name id = .ok scheme ↔
      ((keys.map PartitionKey.keyTransformPair).Nodup ∧
          (keys.filterMap PartitionKey.name).Nodup) ∧
        { keys := some keys, name := name, id := id } = scheme := by
  rw [← areNew_nil, ← areNew_nil, ← PartitionScheme.checkKeys_eq_ok]
  cases keys with
  | nil => exact absurd rfl isKeys
  | cons key keys =>
      rw [PartitionScheme.of]
      cases checkKeys [] [] (key :: keys) with
      | error error => simp [Except.map]
      | ok checked => simp [Except.map]

end Construction

end Deltacat.Storage
