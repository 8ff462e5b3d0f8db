import Deltacat.Library.Procedure
import Deltacat.Storage.Schemes
import Mathlib.Tactic

/-!
# Partition specs and sort orders of Iceberg

The mappers translate partition specs and sort orders between Iceberg and the
storage model, where the source field of a partition or sort key is given by its
name. A partition spec comes back unchanged exactly if each name is found again,
no transform is unknown, and the storage model accepts the keys as a scheme
(`partitionSpec_roundTrips_iff`); a spec without fields does not come back. A
sort order never comes back, since `SortSchemeMapper.unmap` iterates over the
scheme, which is a dictionary, and not over its keys.
-/

namespace Deltacat.Experimental.Iceberg

open Library Storage

section Models

/-- The transforms of Iceberg. -/
inductive IcebergTransform
  | identity
  | hour
  | day
  | month
  | year
  | void
  | bucket (numBuckets : ℤ)
  | truncate (width : ℤ)
  | unknown (transform : String)
  deriving DecidableEq

/-- `PartitionField`. -/
structure PartitionField where
  sourceId : ℤ
  fieldId : ℤ
  transform : IcebergTransform
  name : String
  deriving DecidableEq

/-- `PartitionSpec`. -/
structure PartitionSpec where
  specId : ℤ
  fields : List PartitionField
  deriving DecidableEq

inductive SortDirection
  | asc
  | desc
  deriving DecidableEq

inductive IcebergNullOrder
  | nullsFirst
  | nullsLast
  deriving DecidableEq

/-- `SortField`. -/
structure SortField where
  sourceId : ℤ
  transform : IcebergTransform
  direction : SortDirection
  nullOrder : IcebergNullOrder
  deriving DecidableEq

/-- A field of an Iceberg schema, at any depth. -/
structure SchemaField where
  fieldId : ℤ
  name : String
  deriving DecidableEq

/--
A schema of Iceberg: its fields, and `find_field` with an id and with a name. Fields at all
depths are found, by names that begin with those of the enclosing fields.
-/
structure IcebergSchema where
  fields : List SchemaField
  findId : ℤ → Except Error SchemaField
  findName : String → Except Error SchemaField

/--
The constructors of `PartitionField` and `SortField`. A partition field is made of its values,
and not without an id.
-/
structure FieldConstructors where
  partitionField : ℤ → Option ℤ → Option IcebergTransform → Option String →
    Except Error PartitionField
  sortField : ℤ → Option IcebergTransform → SortDirection → IcebergNullOrder →
    Except Error SortField
  partitionField_of : ∀ sourceId fieldId transform name,
    partitionField sourceId (some fieldId) (some transform) (some name) =
      .ok { sourceId := sourceId, fieldId := fieldId, transform := transform, name := name }
  partitionField_none : ∀ sourceId transform name field,
    partitionField sourceId none transform name ≠ .ok field

end Models

/-- `parameters` of a transform, an object of the transform's own class. -/
def ownParameters (transform : Transform) : Except Error TransformParameters :=
  match transform.parameters with
  | some parameters => .ok parameters
  | none => .error .typeError

/--
`parameters` of an object of the base class, which looks the attribute up in the transform's
class, where it is a property and no dictionary.
-/
def baseParameters (_transform : Transform) : Except Error TransformParameters :=
  .error .typeError

namespace TransformMapper

/-- `TransformMapper.map`. -/
def map : IcebergTransform → Transform
  | .identity => .of .identity
  | .hour => .of .hour
  | .day => .of .day
  | .month => .of .month
  | .year => .of .year
  | .void => .of .void
  | .bucket numBuckets => .bucketOf numBuckets .iceberg
  | .truncate width => .truncateOf width .iceberg
  | .unknown _ => .of .unknown

/-- `TransformMapper.unmap`. -/
def unmap (parameters : Transform → Except Error TransformParameters) (transform : Transform) :
    Except Error IcebergTransform :=
  match transform.name with
  | .identity => .ok .identity
  | .hour => .ok .hour
  | .day => .ok .day
  | .month => .ok .month
  | .year => .ok .year
  | .void => .ok .void
  | .bucket => do
      match ← parameters transform with
      | .bucket numBuckets .iceberg => return .bucket numBuckets
      | .bucket _ .default => throw .valueError
      | .truncate _ _ => throw .keyError
  | .truncate => do
      match ← parameters transform with
      | .truncate width _ => return .truncate width
      | .bucket _ _ => throw .keyError
  | .unknown => .ok (.unknown "unknown")

end TransformMapper

variable (constructors : FieldConstructors)

namespace PartitionKeyMapper

/-- `PartitionKeyMapper.map`. -/
def map (field : PartitionField) (schema : IcebergSchema) :
    Except Error (PartitionKey String) := do
  if schema.fields.isEmpty then throw .valueError
  let source ← schema.findId field.sourceId
  return {
    key := [source.name]
    name := some field.name
    fieldId := some field.fieldId
    transform := some (TransformMapper.map field.transform) }

/-- `PartitionKeyMapper.unmap`. -/
def unmap (key : PartitionKey String) (schema : IcebergSchema) :
    Except Error PartitionField := do
  if schema.fields.isEmpty then throw .valueError
  if key.key.length > 1 then throw .valueError
  match key.key with
  | [] => throw .indexError
  | name :: _ =>
      let source ← schema.findName name
      let transform ← key.transform.mapM (TransformMapper.unmap ownParameters)
      -- The id 0 is no true value.
      constructors.partitionField source.fieldId (key.fieldId.filter (· ≠ 0)) transform key.name

end PartitionKeyMapper

/-- `int(text)` on a plain numeral. -/
def parseInt (text : String) : Option ℤ :=
  let digits (chars : List Char) : Option ℕ :=
    if chars ≠ [] ∧ chars.all Char.isDigit then some (Nat.ofDigitChars 10 chars 0) else none
  match text.toList with
  | '-' :: chars => (digits chars).map fun number => -(number : ℤ)
  | chars => (digits chars).map fun number => (number : ℤ)

namespace PartitionSchemeMapper

/-- `PartitionSchemeMapper.map`, with the default of no name. -/
def map (spec : PartitionSpec) (schema : IcebergSchema) :
    Except Error (PartitionScheme String) := do
  if schema.fields.isEmpty then throw .valueError
  let keys ← spec.fields.mapM fun field => PartitionKeyMapper.map field schema
  PartitionScheme.of (if keys.isEmpty then none else some keys) none (some (toString spec.specId))

/-- `PartitionSchemeMapper.unmap`. -/
def unmap (scheme : PartitionScheme String) (schema : IcebergSchema) :
    Except Error PartitionSpec := do
  if schema.fields.isEmpty then throw .valueError
  match scheme.keys with
  -- `None` cannot be iterated over.
  | none => throw .typeError
  | some keys =>
      let fields ← keys.mapM fun key => PartitionKeyMapper.unmap constructors key schema
      match scheme.id with
      | none => throw .typeError
      | some id =>
          match parseInt id with
          | none => throw .valueError
          | some specId => return { specId := specId, fields := fields }

end PartitionSchemeMapper

namespace SortKeyMapper

/-- `SortKeyMapper.map`. -/
def map (field : SortField) (schema : IcebergSchema) : Except Error (SortKey String) := do
  if schema.fields.isEmpty then throw .valueError
  let source ← schema.findId field.sourceId
  return {
    key := some [source.name]
    sortOrder := match field.direction with
      | .asc => .ascending
      | .desc => .descending
    nullOrder := match field.nullOrder with
      | .nullsFirst => .atStart
      | .nullsLast => .atEnd
    transform := some (TransformMapper.map field.transform) }

/-- What `SortKeyMapper.unmap` is called with: a sort key, or a text. -/
inductive Argument
  | key (key : SortKey String)
  | text (text : String)

/-- `SortKeyMapper.unmap`. -/
def unmap (argument : Argument) (schema : IcebergSchema) : Except Error SortField := do
  if schema.fields.isEmpty then throw .valueError
  match argument with
  -- A text has no attribute `key`.
  | .text _ => throw .attributeError
  | .key key =>
      match key.key with
      -- `None` has no length.
      | none => throw .typeError
      | some [] => throw .indexError
      | some (_ :: _ :: _) => throw .valueError
      | some [name] =>
          let source ← schema.findName name
          let direction := match key.sortOrder with
            | .ascending => SortDirection.asc
            | .descending => SortDirection.desc
          let nullOrder := match key.nullOrder with
            | .atStart => IcebergNullOrder.nullsFirst
            | .atEnd => IcebergNullOrder.nullsLast
          let transform ← key.transform.mapM (TransformMapper.unmap baseParameters)
          constructors.sortField source.fieldId transform direction nullOrder

end SortKeyMapper

/-- What iterating over a sort scheme gives: the names of the entries of the dictionary. -/
def entryNames (_scheme : SortScheme String) : List String :=
  ["keys", "name", "id", "nativeObject"]

namespace SortSchemeMapper

/-- `SortSchemeMapper.map`, with the defaults of no name and no id. -/
def map (order : List SortField) (schema : IcebergSchema) :
    Except Error (SortScheme String) := do
  if schema.fields.isEmpty then throw .valueError
  let keys ← order.mapM fun field => SortKeyMapper.map field schema
  SortScheme.of (if keys.isEmpty then none else some keys) none none

/-- `SortSchemeMapper.unmap`: the fields of the sort order. -/
def unmap (scheme : SortScheme String) (schema : IcebergSchema) :
    Except Error (List SortField) := do
  if schema.fields.isEmpty then throw .valueError
  (entryNames scheme).mapM fun entry => SortKeyMapper.unmap constructors (.text entry) schema

end SortSchemeMapper

/-- Mapping a partition spec and back gives the same spec. -/
def PartitionSpecRoundTrips (spec : PartitionSpec) (schema : IcebergSchema) : Prop :=
  (PartitionSchemeMapper.map spec schema).bind
    (fun scheme => PartitionSchemeMapper.unmap constructors scheme schema) = .ok spec

/-- Mapping a sort order and back gives the same fields. -/
def SortOrderRoundTrips (order : List SortField) (schema : IcebergSchema) : Prop :=
  (SortSchemeMapper.map order schema).bind
    (fun scheme => SortSchemeMapper.unmap constructors scheme schema) = .ok order

variable {constructors}

section Transforms

/-- A transform that no class knows comes back under the name `unknown`. -/
def IcebergTransform.IsKnown : IcebergTransform → Prop
  | .unknown transform => transform = "unknown"
  | _ => True

theorem TransformMapper.unmap_map {transform : IcebergTransform} :
    TransformMapper.unmap ownParameters (TransformMapper.map transform) = .ok transform ↔
      transform.IsKnown := by
  cases transform with
  | unknown transform =>
      change Except.ok _ = Except.ok _ ↔ transform = "unknown"
      rw [Except.ok.injEq, IcebergTransform.unknown.injEq]
      exact eq_comm
  | _ => exact iff_of_true rfl trivial

end Transforms

section Numerals

variable {text : String} {number : ℕ}

theorem parseInt_eq_some (isDigits : text.toList = Nat.toDigits 10 number) :
    parseInt text = some (number : ℤ) := by
  have noSign : ∀ chars, Nat.toDigits 10 number ≠ '-' :: chars := by
    intro chars isSigned
    have isDigit := @Nat.isDigit_of_mem_toDigits 10 number '-' (by decide) (by decide)
      (isSigned ▸ List.mem_cons_self)
    exact absurd isDigit (by decide)
  have allDigits : (Nat.toDigits 10 number).all Char.isDigit := by
    rw [List.all_eq_true]
    intro char charMem
    exact Nat.isDigit_of_mem_toDigits (by decide) (by decide) charMem
  unfold parseInt
  rw [isDigits]
  split
  next chars isSigned => exact absurd isSigned (noSign chars)
  next => simp [Nat.toDigits_ne_nil, allDigits, Nat.ofDigitChars_ten_toDigits]

theorem parseInt_eq_some_neg (isDigits : text.toList = '-' :: Nat.toDigits 10 number) :
    parseInt text = some (-number : ℤ) := by
  have allDigits : (Nat.toDigits 10 number).all Char.isDigit := by
    rw [List.all_eq_true]
    intro char charMem
    exact Nat.isDigit_of_mem_toDigits (by decide) (by decide) charMem
  unfold parseInt
  rw [isDigits]
  simp [Nat.toDigits_ne_nil, allDigits, Nat.ofDigitChars_ten_toDigits]

/-- The id of a spec is read back from its text. -/
theorem parseInt_toString (specId : ℤ) : parseInt (toString specId) = some specId := by
  rw [Int.toString_eq_repr, Int.repr_eq_if]
  split
  next nonneg =>
      rw [@parseInt_eq_some _ specId.toNat (by simp [Nat.repr_eq_ofList_toDigits]),
        Int.toNat_of_nonneg nonneg]
  next isNegative =>
      rw [@parseInt_eq_some_neg _ (-specId).toNat (by simp [Nat.repr_eq_ofList_toDigits]),
        Int.toNat_of_nonneg (by omega), neg_neg]

end Numerals

section Keys

/-- The key of a field whose source is found. -/
def PartitionField.toKey (field : PartitionField) (source : SchemaField) :
    PartitionKey String where
  key := [source.name]
  name := some field.name
  fieldId := some field.fieldId
  transform := some (TransformMapper.map field.transform)

variable {schema : IcebergSchema} {spec : PartitionSpec} {field other : PartitionField}

/-- The source field of an id, if there is one. -/
def IcebergSchema.source (schema : IcebergSchema) (sourceId : ℤ) : SchemaField :=
  (schema.findId sourceId).toOption.getD { fieldId := sourceId, name := "" }

/-- The schema has the source field of an id. -/
def IcebergSchema.HasSource (schema : IcebergSchema) (sourceId : ℤ) : Prop :=
  schema.findId sourceId = .ok (schema.source sourceId)

/-- The id is the one found by the name of its source field. -/
def IcebergSchema.FindsByName (schema : IcebergSchema) (sourceId : ℤ) : Prop :=
  ∃ named, schema.findName (schema.source sourceId).name = .ok named ∧ named.fieldId = sourceId

/-- The field is found again by the name of its source, and nothing else of it is lost. -/
structure PartitionField.IsRecoverable (field : PartitionField) (schema : IcebergSchema) :
    Prop where
  hasSource : schema.HasSource field.sourceId
  findsByName : schema.FindsByName field.sourceId
  hasId : field.fieldId ≠ 0
  isKnown : field.transform.IsKnown

theorem PartitionKeyMapper.map_eq_ok {key : PartitionKey String} (isSchema : schema.fields ≠ []) :
    PartitionKeyMapper.map field schema = .ok key ↔
      schema.HasSource field.sourceId ∧ field.toKey (schema.source field.sourceId) = key := by
  unfold PartitionKeyMapper.map IcebergSchema.HasSource IcebergSchema.source
  rw [List.isEmpty_eq_false_iff.mpr isSchema]
  cases schema.findId field.sourceId with
  | ok source =>
      change Except.ok (field.toKey source) = .ok key ↔ _ ∧ field.toKey source = key
      simp [Except.toOption]
  | error error => exact iff_of_false nofun nofun

theorem FieldConstructors.partitionField_eq_ok {sourceId : ℤ} {transform : IcebergTransform} :
    constructors.partitionField sourceId ((some field.fieldId).filter (· ≠ 0)) (some transform)
        (some field.name) = .ok field ↔
      sourceId = field.sourceId ∧ field.fieldId ≠ 0 ∧ transform = field.transform := by
  by_cases hasId : field.fieldId = 0
  · rw [hasId]
    simp [Option.filter_some, constructors.partitionField_none]
  · rcases field with ⟨_, _, _, _⟩
    simp only at hasId
    simp [Option.filter_some, hasId, constructors.partitionField_of]

theorem PartitionKeyMapper.unmap_toKey (isSchema : schema.fields ≠ []) :
    PartitionKeyMapper.unmap constructors (field.toKey (schema.source field.sourceId)) schema =
        .ok field ↔
      schema.FindsByName field.sourceId ∧ field.fieldId ≠ 0 ∧ field.transform.IsKnown := by
  unfold PartitionKeyMapper.unmap
  rw [List.isEmpty_eq_false_iff.mpr isSchema]
  change (schema.findName (schema.source field.sourceId).name >>= fun named =>
    (some <$> TransformMapper.unmap ownParameters (TransformMapper.map field.transform)) >>=
      fun transform => constructors.partitionField named.fieldId
        ((some field.fieldId).filter (· ≠ 0)) transform
        (some field.name)) = .ok field ↔ _
  simp only [except_bind_eq_ok, IcebergSchema.FindsByName]
  constructor
  · rintro ⟨named, isNamed, restored, isRestored, isField⟩
    cases isUnmapped : TransformMapper.unmap ownParameters
        (TransformMapper.map field.transform) with
    | error error =>
        rw [isUnmapped] at isRestored
        cases isRestored
    | ok transform =>
        rw [isUnmapped] at isRestored
        cases isRestored
        rcases constructors.partitionField_eq_ok.mp isField with ⟨isSource, hasId, isTransform⟩
        rw [isTransform] at isUnmapped
        exact ⟨⟨named, isNamed, isSource⟩, hasId, TransformMapper.unmap_map.mp isUnmapped⟩
  · rintro ⟨⟨named, isNamed, isSource⟩, hasId, isKnown⟩
    refine ⟨named, isNamed, some field.transform, ?_, ?_⟩
    · rw [TransformMapper.unmap_map.mpr isKnown]
      rfl
    · exact constructors.partitionField_eq_ok.mpr ⟨isSource, hasId, rfl⟩

theorem PartitionField.IsRecoverable.pair_eq_iff (isRecoverable : field.IsRecoverable schema)
    (otherRecoverable : other.IsRecoverable schema) :
    (field.toKey (schema.source field.sourceId)).keyTransformPair =
        (other.toKey (schema.source other.sourceId)).keyTransformPair ↔
      (field.sourceId, (TransformMapper.map field.transform).name) =
        (other.sourceId, (TransformMapper.map other.transform).name) := by
  simp only [PartitionKey.keyTransformPair, PartitionField.toKey, Option.map_some, Prod.mk.injEq,
    List.cons.injEq, and_true, Option.some.injEq]
  apply and_congr_left
  intro _
  constructor
  · intro sameName
    rcases isRecoverable.findsByName with ⟨named, isNamed, isSource⟩
    rcases otherRecoverable.findsByName with ⟨otherNamed, isOtherNamed, isOtherSource⟩
    rw [sameName, isOtherNamed] at isNamed
    cases isNamed
    rw [← isSource, ← isOtherSource]
  · intro sameId
    rw [sameId]

end Keys

section RoundTrips

variable {schema : IcebergSchema} {spec : PartitionSpec}

/-- The keys of a partition spec. -/
def PartitionSpec.toKeys (spec : PartitionSpec) (schema : IcebergSchema) :
    List (PartitionKey String) :=
  spec.fields.map fun field => field.toKey (schema.source field.sourceId)

theorem mapM_map_eq_ok {keys : List (PartitionKey String)} (isSchema : schema.fields ≠ []) :
    (spec.fields.mapM fun field => PartitionKeyMapper.map field schema) = .ok keys ↔
      (∀ field ∈ spec.fields, schema.HasSource field.sourceId) ∧ spec.toKeys schema = keys := by
  rw [except_mapM_eq_ok_iff]
  simp only [PartitionKeyMapper.map_eq_ok isSchema]
  rw [List.forall₂_and_left, PartitionSpec.toKeys, ← List.forall₂_eq_eq_eq,
    List.forall₂_map_left_iff]

theorem mapM_unmap_eq_ok (isSchema : schema.fields ≠ []) :
    ((spec.toKeys schema).mapM fun key => PartitionKeyMapper.unmap constructors key schema) =
        .ok spec.fields ↔
      ∀ field ∈ spec.fields, schema.FindsByName field.sourceId ∧ field.fieldId ≠ 0 ∧
        field.transform.IsKnown := by
  rw [except_mapM_eq_ok_iff, PartitionSpec.toKeys, List.forall₂_map_left_iff, List.forall₂_same]
  simp only [PartitionKeyMapper.unmap_toKey isSchema]

theorem filterMap_name_toKeys : (spec.toKeys schema).filterMap PartitionKey.name =
    spec.fields.map PartitionField.name := by
  rw [PartitionSpec.toKeys, List.filterMap_map, ← List.filterMap_eq_map]
  rfl

/-- What names a field's values: its source, and the kind of its transform. -/
def PartitionField.kind (field : PartitionField) : ℤ × TransformName :=
  (field.sourceId, (TransformMapper.map field.transform).name)

theorem nodup_pair_toKeys (areRecoverable : ∀ field ∈ spec.fields, field.IsRecoverable schema) :
    ((spec.toKeys schema).map PartitionKey.keyTransformPair).Nodup ↔
      (spec.fields.map PartitionField.kind).Nodup := by
  rw [PartitionSpec.toKeys, List.map_map, List.Nodup, List.Nodup, List.pairwise_map,
    List.pairwise_map]
  apply List.Pairwise.iff_of_mem
  intro field other fieldMem otherMem
  exact not_congr ((areRecoverable field fieldMem).pair_eq_iff (areRecoverable other otherMem))

theorem PartitionSchemeMapper.map_eq_ok {scheme : PartitionScheme String}
    (isSchema : schema.fields ≠ []) (isPartitioned : spec.fields ≠ []) :
    PartitionSchemeMapper.map spec schema = .ok scheme ↔
      (∀ field ∈ spec.fields, schema.HasSource field.sourceId) ∧
        (((spec.toKeys schema).map PartitionKey.keyTransformPair).Nodup ∧
          ((spec.toKeys schema).filterMap PartitionKey.name).Nodup) ∧
        { keys := some (spec.toKeys schema), name := none, id := some (toString spec.specId) } =
          scheme := by
  have areKeys : spec.toKeys schema ≠ [] :=
    fun isNil => isPartitioned (List.map_eq_nil_iff.mp isNil)
  unfold PartitionSchemeMapper.map
  rw [List.isEmpty_eq_false_iff.mpr isSchema]
  change ((spec.fields.mapM fun field => PartitionKeyMapper.map field schema) >>= fun keys =>
    PartitionScheme.of (if keys.isEmpty then none else some keys) none
      (some (toString spec.specId))) = .ok scheme ↔ _
  simp only [except_bind_eq_ok, mapM_map_eq_ok isSchema]
  constructor
  · rintro ⟨_, ⟨haveSources, rfl⟩, isScheme⟩
    rw [List.isEmpty_eq_false_iff.mpr areKeys] at isScheme
    exact ⟨haveSources, (PartitionScheme.of_eq_ok areKeys).mp isScheme⟩
  · rintro ⟨haveSources, isScheme⟩
    refine ⟨_, ⟨haveSources, rfl⟩, ?_⟩
    rw [List.isEmpty_eq_false_iff.mpr areKeys]
    exact (PartitionScheme.of_eq_ok areKeys).mpr isScheme

/-- A spec without fields gives a scheme without keys, and a schema is needed. -/
theorem PartitionSchemeMapper.keys_of_map_nil {scheme : PartitionScheme String}
    (isUnpartitioned : spec.fields = [])
    (isScheme : PartitionSchemeMapper.map spec schema = .ok scheme) : scheme.keys = none := by
  unfold PartitionSchemeMapper.map at isScheme
  rw [isUnpartitioned] at isScheme
  cases isEmpty : schema.fields.isEmpty with
  | true =>
      rw [isEmpty] at isScheme
      cases isScheme
  | false =>
      rw [isEmpty] at isScheme
      cases isScheme
      rfl

theorem PartitionSchemeMapper.unmap_toKeys (isSchema : schema.fields ≠ []) :
    PartitionSchemeMapper.unmap constructors
        { keys := some (spec.toKeys schema), name := none, id := some (toString spec.specId) }
        schema = .ok spec ↔
      ∀ field ∈ spec.fields, schema.FindsByName field.sourceId ∧ field.fieldId ≠ 0 ∧
        field.transform.IsKnown := by
  unfold PartitionSchemeMapper.unmap
  rw [List.isEmpty_eq_false_iff.mpr isSchema]
  simp only [parseInt_toString]
  change (((spec.toKeys schema).mapM fun key =>
    PartitionKeyMapper.unmap constructors key schema) >>= fun fields =>
      (.ok { specId := spec.specId, fields := fields } : Except Error _)) =
      .ok spec ↔ _
  rw [except_bind_eq_ok, ← mapM_unmap_eq_ok isSchema]
  constructor
  · rintro ⟨fields, areFields, isSpec⟩
    rw [areFields, ← Except.ok.inj isSpec]
  · intro areFields
    exact ⟨_, areFields, rfl⟩

/--
The schema has fields and so has the spec, each of them comes back alone, and
the storage model accepts them together.
-/
structure PartitionSpec.IsRecoverable (spec : PartitionSpec) (schema : IcebergSchema) : Prop where
  isSchema : schema.fields ≠ []
  isPartitioned : spec.fields ≠ []
  areRecoverable : ∀ field ∈ spec.fields, field.IsRecoverable schema
  names : (spec.fields.map PartitionField.name).Nodup
  kinds : (spec.fields.map PartitionField.kind).Nodup

theorem PartitionSpecRoundTrips.of_isRecoverable (isRecoverable : spec.IsRecoverable schema) :
    PartitionSpecRoundTrips constructors spec schema := by
  rcases isRecoverable with ⟨isSchema, isPartitioned, areRecoverable, names, kinds⟩
  apply except_bind_eq_ok.mpr
  refine ⟨_, (PartitionSchemeMapper.map_eq_ok isSchema isPartitioned).mpr
    ⟨fun field fieldMem => (areRecoverable field fieldMem).hasSource, ⟨?_, ?_⟩, rfl⟩, ?_⟩
  · exact (nodup_pair_toKeys areRecoverable).mpr kinds
  · rw [filterMap_name_toKeys]
    exact names
  · apply (PartitionSchemeMapper.unmap_toKeys isSchema).mpr
    intro field fieldMem
    have isRecoverable := areRecoverable field fieldMem
    exact ⟨isRecoverable.findsByName, isRecoverable.hasId, isRecoverable.isKnown⟩

theorem PartitionSpecRoundTrips.isRecoverable
    (roundTrips : PartitionSpecRoundTrips constructors spec schema) :
    spec.IsRecoverable schema := by
  rcases except_bind_eq_ok.mp roundTrips with ⟨scheme, isScheme, isSpec⟩
  have isSchema : schema.fields ≠ [] := by
    intro noFields
    unfold PartitionSchemeMapper.map at isScheme
    rw [noFields] at isScheme
    cases isScheme
  have isPartitioned : spec.fields ≠ [] := by
    intro isUnpartitioned
    unfold PartitionSchemeMapper.unmap at isSpec
    rw [PartitionSchemeMapper.keys_of_map_nil isUnpartitioned isScheme,
      List.isEmpty_eq_false_iff.mpr isSchema] at isSpec
    cases isSpec
  rcases (PartitionSchemeMapper.map_eq_ok isSchema isPartitioned).mp isScheme with
    ⟨haveSources, ⟨pairs, names⟩, rfl⟩
  have comeBack := (PartitionSchemeMapper.unmap_toKeys isSchema).mp isSpec
  have areRecoverable : ∀ field ∈ spec.fields, field.IsRecoverable schema := by
    intro field fieldMem
    rcases comeBack field fieldMem with ⟨findsByName, hasId, isKnown⟩
    exact ⟨haveSources field fieldMem, findsByName, hasId, isKnown⟩
  rw [filterMap_name_toKeys] at names
  exact ⟨isSchema, isPartitioned, areRecoverable, names,
    (nodup_pair_toKeys areRecoverable).mp pairs⟩

/-- The entries of a scheme are texts, which are no sort keys. -/
theorem SortSchemeMapper.unmap_ne_ok {scheme : SortScheme String} {order : List SortField} :
    SortSchemeMapper.unmap constructors scheme schema ≠ .ok order := by
  intro isOrder
  unfold SortSchemeMapper.unmap at isOrder
  cases isEmpty : schema.fields.isEmpty with
  | true =>
      rw [isEmpty] at isOrder
      cases isOrder
  | false =>
      rw [isEmpty] at isOrder
      have isOrder : (entryNames scheme).mapM
          (fun entry => SortKeyMapper.unmap constructors (.text entry) schema) = .ok order :=
        isOrder
      rw [entryNames, List.mapM_cons] at isOrder
      rcases except_bind_eq_ok.mp isOrder with ⟨field, isField, -⟩
      unfold SortKeyMapper.unmap at isField
      rw [isEmpty] at isField
      cases isField

end RoundTrips

/--
A partition spec comes back exactly if it is recoverable, and a sort order
never does.
-/
theorem partitionSpec_roundTrips_iff (constructors : FieldConstructors) (schema : IcebergSchema)
    (spec : PartitionSpec) (order : List SortField) :
    (PartitionSpecRoundTrips constructors spec schema ↔ spec.IsRecoverable schema) ∧
      ¬SortOrderRoundTrips constructors order schema := by
  refine ⟨⟨fun roundTrips => roundTrips.isRecoverable, .of_isRecoverable⟩, fun roundTrips => ?_⟩
  rcases except_bind_eq_ok.mp roundTrips with ⟨scheme, -, isOrder⟩
  exact SortSchemeMapper.unmap_ne_ok isOrder

/-- A schema with one field. -/
def idSchema : IcebergSchema where
  fields := [{ fieldId := 1, name := "id" }]
  findId fieldId := if fieldId = 1 then .ok { fieldId := 1, name := "id" } else .error .valueError
  findName name := if name = "id" then .ok { fieldId := 1, name := "id" } else .error .valueError

/-- Constructors that need each value. -/
def requireAll : FieldConstructors where
  partitionField sourceId fieldId transform name :=
    match fieldId, transform, name with
    | some fieldId, some transform, some name =>
        .ok { sourceId := sourceId, fieldId := fieldId, transform := transform, name := name }
    | _, _, _ => .error .valueError
  sortField sourceId transform direction nullOrder :=
    match transform with
    | none => .error .valueError
    | some transform =>
        .ok {
          sourceId := sourceId
          transform := transform
          direction := direction
          nullOrder := nullOrder }
  partitionField_of _ _ _ _ := rfl
  partitionField_none _ _ _ _ := nofun

/-- The spec of an unpartitioned table and the order by one field are lost. -/
theorem not_partitionSpec_roundTrips_unpartitioned :
    ¬∀ (constructors : FieldConstructors) (schema : IcebergSchema) (spec : PartitionSpec)
      (order : List SortField),
      PartitionSpecRoundTrips constructors spec schema ∧
        SortOrderRoundTrips constructors order schema := by
  intro roundTrips
  rcases roundTrips requireAll idSchema
      { specId := 0, fields := [] }
      [{ sourceId := 1, transform := .identity, direction := .asc, nullOrder := .nullsFirst }] with
    ⟨specRoundTrips, -⟩
  exact specRoundTrips.isRecoverable.isPartitioned rfl

end Deltacat.Experimental.Iceberg
