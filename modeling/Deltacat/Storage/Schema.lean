import Deltacat.Exceptions
import Mathlib.Tactic

/-!
# Schemas and their evolution

Fields, schemas and schema updates. A schema is a list of fields with distinct
identifiers: the visitor that looks for nested fields compares a field with
types, so that it never finds any. The metadata of an Arrow field is represented
by the properties that are read from it.

Arrow types and the questions that are asked about them are a parameter. The
serialized form of a schema is its Arrow schema, which has the metadata of the
fields and the identifier of the schema, but not the greatest field identifier
that the schema object carries.
-/

namespace Deltacat.Storage

/-- `SchemaConsistencyType`. -/
inductive SchemaConsistencyType
  | none
  | coerce
  | validate
  deriving DecidableEq, Repr

/-- Data types, default values and orders, with what is asked about them. -/
structure ArrowTypes where
  DataType : Type
  Default : Type
  MergeOrder : Type
  [decidableDefault : DecidableEq Default]
  [decidableMergeOrder : DecidableEq MergeOrder]
  isPrimitive : DataType → Bool
  isString : DataType → Bool
  isFloating : DataType → Bool
  isInteger : DataType → Bool
  isDate : DataType → Bool
  /-- Whether a default value has a scalar of the type. -/
  hasScalar : Default → DataType → Bool
  /-- `_is_type_compatible`. -/
  isCompatible : DataType → DataType → Bool
  /-- `str.lower`. -/
  lower : String → String

attribute [instance] ArrowTypes.decidableDefault ArrowTypes.decidableMergeOrder

/-- `MAX_FIELD_ID_EXCLUSIVE`. -/
def maxFieldIdExclusive : ℤ := 2147483447

/-- A field, with the metadata of its Arrow field. -/
structure Field (types : ArrowTypes) where
  name : String
  type : types.DataType
  nullable : Bool
  id : Option ℤ
  isMergeKey : Bool
  mergeOrder : Option types.MergeOrder
  isEventTime : Bool
  doc : Option String
  pastDefault : Option types.Default
  futureDefault : Option types.Default
  consistencyType : Option SchemaConsistencyType

namespace Field

variable {types : ArrowTypes}

/-- Whether the consistency type of a critical field is `VALIDATE`. -/
def validates (consistencyType : Option SchemaConsistencyType) : Bool :=
  consistencyType = none ∨ consistencyType = some .validate

/-- `_validate_merge_key`. -/
def validateMergeKey (field : Field types) : Except Error Unit :=
  if ¬(types.isString field.type ∨ types.isPrimitive field.type) then .error .valueError
  else if ¬validates field.consistencyType then .error .valueError
  else if types.isFloating field.type then .error .valueError
  else .ok ()

/-- `_validate_merge_order`. -/
def validateMergeOrder (field : Field types) : Except Error Unit :=
  if ¬types.isPrimitive field.type then .error .valueError
  else if ¬validates field.consistencyType then .error .valueError
  else .ok ()

/-- `_validate_event_time`. -/
def validateEventTime (field : Field types) : Except Error Unit :=
  if ¬(types.isInteger field.type ∨ types.isFloating field.type ∨ types.isDate field.type) then
    .error .valueError
  else if ¬validates field.consistencyType then .error .valueError
  else .ok ()

/-- `_validate_default`. -/
def validateDefault (field : Field types) (default : Option types.Default) : Except Error Unit :=
  match default with
  | none => .ok ()
  | some value => if types.hasScalar value field.type then .ok () else .error .valueError

/-- The values that `_build` fills in. -/
def withDefaults (field : Field types) : Field types :=
  { field with
    futureDefault := field.futureDefault <|> field.pastDefault
    consistencyType := field.consistencyType <|>
      if field.isMergeKey ∨ field.mergeOrder.isSome ∨ field.isEventTime then some .validate
      else none }

/-- The validations of `_build`. -/
def validate (field : Field types) : Except Error Unit := do
  if field.isMergeKey then field.validateMergeKey
  if field.mergeOrder.isSome then field.validateMergeOrder
  if field.isEventTime then field.validateEventTime
  field.validateDefault field.pastDefault
  field.validateDefault field.futureDefault

/-- `Field.of` of a field with its metadata. -/
def of (field : Field types) : Except Error (Field types) :=
  field.withDefaults.validate.map fun _ => field.withDefaults

end Field

/-- The serialized form of a schema: its fields and the schema identifier. -/
structure ArrowSchema (types : ArrowTypes) where
  fields : List (Field types)
  schemaId : Option ℕ

/-- A schema, with its fields in the order of `fieldIdsToFields`. -/
structure Schema (types : ArrowTypes) where
  fields : List (Field types)
  maxFieldId : ℤ
  id : ℕ

namespace Schema

variable {types : ArrowTypes}

/-- `_validate_field_names`. -/
def validateFieldNames (fields : List (Field types)) : Except Error Unit :=
  if fields = [] then .error .valueError
  else if (fields.map fun field => types.lower field.name).Nodup then .ok ()
  else .error .valueError

/-- The visits of `_find_max_field_id`. -/
def findMaxFieldId (fields : List (Field types)) : ℤ :=
  fields.foldl (fun maxFieldId field => max maxFieldId (field.id.getD 0)) 0

/-- `_populate_fields`: a visit of the next field. -/
def populateField (maxFieldId : ℤ) (populated : List (Field types)) (field : Field types) :
    Except Error (List (Field types)) := do
  let dcField ← Field.of field
  let fieldId := dcField.id.getD ((maxFieldId + populated.length) % maxFieldIdExclusive)
  if populated.any (·.id = some fieldId) then throw .valueError
  else
    let field ← Field.of { field with id := some fieldId }
    return populated ++ [field]

/-- The greatest identifier of a list of fields. -/
def greatestId (fields : List (Field types)) : ℤ :=
  match fields.filterMap (·.id) with
  | [] => 0
  | id :: ids => ids.foldl max id

/-- `Schema.of` of an Arrow schema or of a list of fields, which has no metadata of its own. -/
def of (arrow : ArrowSchema types) (schemaId : Option ℕ) : Except Error (Schema types) := do
  validateFieldNames arrow.fields
  let fields ← arrow.fields.foldlM (populateField (findMaxFieldId arrow.fields)) []
  return ⟨fields, greatestId fields, (schemaId <|> arrow.schemaId).getD 0⟩

/-- `serialize`. -/
def serialize (schema : Schema types) : ArrowSchema types :=
  ⟨schema.fields, some schema.id⟩

/-- `deserialize`. -/
def deserialize (serialized : ArrowSchema types) : Except Error (Schema types) :=
  of serialized none

end Schema

/-- `FieldLocator`. -/
inductive FieldLocator
  | name (fieldName : String)
  | path (nestedFieldName : List String)
  | id (fieldId : ℤ)
  deriving DecidableEq, Repr

/-- `SchemaUpdateOperation`. -/
inductive SchemaUpdateOperation (types : ArrowTypes)
  | add (field : Field types)
  | remove (locator : FieldLocator)
  | update (locator : FieldLocator) (field : Field types)

namespace SchemaUpdateOperation

variable {types : ArrowTypes}

def fieldLocator : SchemaUpdateOperation types → Option FieldLocator
  | .add _ => none
  | .remove locator => some locator
  | .update locator _ => some locator

def field : SchemaUpdateOperation types → Option (Field types)
  | .add field => some field
  | .remove _ => none
  | .update _ field => some field

/-- The text of a locator, as `_field_locators_match` compares it. -/
def locatorText : Option FieldLocator → String
  | none => "None"
  | some (.name fieldName) => fieldName
  | some (.path (fieldName :: _)) => fieldName
  | some (.path []) => "[]"
  | some (.id fieldId) => toString fieldId

/-- `_field_locators_match`. -/
def fieldLocatorsMatch (left right : Option FieldLocator) : Bool :=
  match left, right with
  | some (.path leftPath), some (.path rightPath) => leftPath = rightPath
  | some (.id leftId), some (.id rightId) => leftId = rightId
  | _, _ => locatorText left = locatorText right

/-- The name under which `_validate_no_conflicting_operations` files an operation. -/
def conflictName : SchemaUpdateOperation types → Option String
  | .add field => some field.name
  | .remove (.name fieldName) | .update (.name fieldName) _ => some fieldName
  | .remove (.path (fieldName :: _)) | .update (.path (fieldName :: _)) _ => some fieldName
  | .remove _ | .update _ _ => none

/-- The kind of an operation. -/
inductive Kind
  | add
  | remove
  | update
  deriving DecidableEq, Repr

def kind : SchemaUpdateOperation types → Kind
  | .add _ => .add
  | .remove _ => .remove
  | .update _ _ => .update

end SchemaUpdateOperation

/-- `SchemaUpdate`. -/
structure SchemaUpdate (types : ArrowTypes) where
  baseSchema : Schema types
  allowIncompatibleChanges : Bool
  operations : List (SchemaUpdateOperation types)

namespace SchemaUpdate

open SchemaUpdateOperation

variable {types : ArrowTypes} (update : SchemaUpdate types)

/-- `_get_field_name`. -/
def getFieldName : FieldLocator → String
  | .name fieldName => fieldName
  | .path nestedFieldName => nestedFieldName.headD ""
  | .id fieldId =>
      match update.baseSchema.fields.find? (·.id = some fieldId) with
      | some field => field.name
      | none => "field_" ++ toString fieldId

/-- `_get_existing_field`: the field of the base schema, or the last pending change of it. -/
def getExistingField (locator : FieldLocator) : Except Error (Field types) :=
  match update.baseSchema.fields.find? (·.name = update.getFieldName locator) with
  | none => .error .schemaCompatibilityError
  | some baseField =>
      match (update.operations.filter fun operation =>
        fieldLocatorsMatch operation.fieldLocator (some locator)).getLast? with
      | none => .ok baseField
      | some operation =>
          match operation.field with
          | some field => .ok field
          -- The pending removal has no field, and reading its Arrow field fails.
          | none => .error .attributeError

/-- The methods that change a field append an update by the changed copy of the field. -/
def updateField (locator : FieldLocator) (change : Field types → Field types) :
    Except Error (SchemaUpdate types) := do
  let existingField ← update.getExistingField locator
  return { update with
    operations := update.operations ++ [.update locator (change existingField)] }

/-- `add_field`. -/
def addField (newField : Field types) : SchemaUpdate types :=
  { update with operations := update.operations ++ [.add newField] }

/-- `remove_field`. -/
def removeField (locator : FieldLocator) : SchemaUpdate types :=
  { update with operations := update.operations ++ [.remove locator] }

/-- `rename_field`. -/
def renameField (locator : FieldLocator) (newName : String) : Except Error (SchemaUpdate types) :=
  update.updateField locator fun field => { field with name := newName }

/-- `update_field_type`. -/
def updateFieldType (locator : FieldLocator) (newType : types.DataType) :
    Except Error (SchemaUpdate types) :=
  update.updateField locator fun field => { field with type := newType }

/-- `update_field_doc`. -/
def updateFieldDoc (locator : FieldLocator) (newDoc : Option String) :
    Except Error (SchemaUpdate types) :=
  update.updateField locator fun field => { field with doc := newDoc }

/-- `update_field_nullability`. -/
def updateFieldNullability (locator : FieldLocator) (nullable : Bool) :
    Except Error (SchemaUpdate types) :=
  update.updateField locator fun field => { field with nullable := nullable }

/-- `update_field_consistency_type`. -/
def updateFieldConsistencyType (locator : FieldLocator)
    (consistencyType : Option SchemaConsistencyType) : Except Error (SchemaUpdate types) :=
  update.updateField locator fun field => { field with consistencyType := consistencyType }

/-- `update_field_future_default`, which validates the default against the type of the field. -/
def updateFieldFutureDefault (locator : FieldLocator) (futureDefault : Option types.Default) :
    Except Error (SchemaUpdate types) := do
  let existingField ← update.getExistingField locator
  existingField.validateDefault futureDefault
  update.updateField locator fun field => { field with futureDefault := futureDefault }

/-- `_validate_no_conflicting_operations`: empty names count as no name. -/
def hasConflict : Bool :=
  update.operations.any fun left => update.operations.any fun right =>
    left.conflictName ≠ none ∧ left.conflictName ≠ some "" ∧
      left.conflictName = right.conflictName ∧ left.kind ≠ right.kind

/-- `_validate_add_field_compatibility`. -/
def validateAddField (newField : Field types) : Except Error Unit :=
  if ¬(newField.nullable ∨ newField.pastDefault.isSome ∨ newField.futureDefault.isSome) then
    .error .schemaCompatibilityError
  else .ok ()

/-- `_validate_consistency_type_evolution`. -/
def validateConsistencyType (oldType newType : Option SchemaConsistencyType) : Except Error Unit :=
  if oldType = newType then .ok ()
  else
    match oldType, newType with
    | _, none | _, some .none => .ok ()
    | some .coerce, some _ | some .validate, some _ => .ok ()
    | none, some _ => .ok ()
    | some .none, some _ => .error .schemaCompatibilityError

/-- `_validate_update_field_compatibility`. -/
def validateUpdateField (oldField newField : Field types) : Except Error Unit :=
  if oldField.isMergeKey ≠ newField.isMergeKey then .error .schemaCompatibilityError
  else if oldField.mergeOrder ≠ newField.mergeOrder then .error .schemaCompatibilityError
  else if oldField.isEventTime ≠ newField.isEventTime then .error .schemaCompatibilityError
  else do
    validateConsistencyType oldField.consistencyType newField.consistencyType
    if oldField.pastDefault ≠ newField.pastDefault then throw .schemaCompatibilityError
    else if oldField.id ≠ newField.id ∧ newField.id ≠ none ∧
        update.baseSchema.fields.any fun field =>
          field.id = newField.id ∧ field.id ≠ oldField.id then
      throw .schemaCompatibilityError
    else if ¬types.isCompatible oldField.type newField.type then throw .schemaCompatibilityError
    else if oldField.nullable ∧ ¬newField.nullable ∧
        ¬(newField.pastDefault.isSome ∧ newField.futureDefault.isSome) then
      throw .schemaCompatibilityError

/-- A validation that is made unless incompatible changes are allowed. -/
def unlessAllowed (validation : Except Error Unit) : Except Error Unit :=
  if update.allowIncompatibleChanges then .ok () else validation

/-- The variables of the loop of `apply`. -/
structure ApplyState (types : ArrowTypes) where
  fields : List (Field types)
  fieldNameToIndex : String → Option ℕ
  nextAvailableFieldId : ℤ

/-- `_apply_add_field`. -/
def applyAddField (state : ApplyState types) (newField : Field types) :
    Except Error (ApplyState types) := do
  if (state.fieldNameToIndex newField.name).isSome then throw .schemaCompatibilityError
  else
    update.unlessAllowed (validateAddField newField)
    let fieldWithAutoId ← Field.of { newField with id := some state.nextAvailableFieldId }
    return {
      fields := state.fields ++ [fieldWithAutoId]
      fieldNameToIndex :=
        Function.update state.fieldNameToIndex newField.name (some state.fields.length)
      nextAvailableFieldId := state.nextAvailableFieldId + 1 }

/-- The new indices when the field at `fieldIndex` is removed. -/
def shiftIndex (fieldIndex index : ℕ) : ℕ :=
  if fieldIndex < index then index - 1 else index

/-- `_apply_remove_field`; without incompatible changes, every removal is refused. -/
def applyRemoveField (state : ApplyState types) (locator : FieldLocator) :
    Except Error (ApplyState types) :=
  match state.fieldNameToIndex (update.getFieldName locator) with
  | none => .error .schemaCompatibilityError
  | some fieldIndex =>
      if ¬update.allowIncompatibleChanges then .error .schemaCompatibilityError
      else .ok { state with
        fields := state.fields.eraseIdx fieldIndex
        fieldNameToIndex := fun name =>
          if name = update.getFieldName locator then none
          else (state.fieldNameToIndex name).map (shiftIndex fieldIndex) }

/-- `_apply_update_field`. -/
def applyUpdateField (state : ApplyState types) (locator : FieldLocator)
    (updatedField : Field types) : Except Error (ApplyState types) := do
  let fieldName := update.getFieldName locator
  match state.fieldNameToIndex fieldName with
  | none => throw .schemaCompatibilityError
  | some fieldIndex =>
      match state.fields[fieldIndex]? with
      | none => throw .indexError
      | some oldField =>
          update.unlessAllowed (update.validateUpdateField oldField updatedField)
          let field ← Field.of updatedField
          return { state with
            fields := state.fields.set fieldIndex field
            fieldNameToIndex :=
              if fieldName = updatedField.name then state.fieldNameToIndex
              else Function.update (Function.update state.fieldNameToIndex fieldName none)
                updatedField.name (some fieldIndex) }

/-- One iteration of the loop of `apply`. -/
def applyOperation (state : ApplyState types) :
    SchemaUpdateOperation types → Except Error (ApplyState types)
  | .add field => update.applyAddField state field
  | .remove locator => update.applyRemoveField state locator
  | .update locator field => update.applyUpdateField state locator field

/-- The index of each name; of equal names, the last one counts. -/
def nameToIndex : List (Field types) → String → Option ℕ
  | [], _ => none
  | field :: fields, name =>
      match nameToIndex fields name with
      | some index => some (index + 1)
      | none => if field.name = name then some 0 else none

/-- `apply`. -/
def apply : Except Error (Schema types) := do
  let nextAvailableFieldId := update.baseSchema.maxFieldId + 1
  if nextAvailableFieldId ≥ maxFieldIdExclusive then throw .schemaCompatibilityError
  else if update.hasConflict then throw .valueError
  else
    let state ← update.operations.foldlM update.applyOperation
      ⟨update.baseSchema.fields, nameToIndex update.baseSchema.fields, nextAvailableFieldId⟩
    let newSchema ← Schema.of ⟨state.fields, none⟩ (some (update.baseSchema.id + 1))
    return { newSchema with maxFieldId := max newSchema.maxFieldId update.baseSchema.maxFieldId }

end SchemaUpdate

/-- A call of one of the methods of a schema update. -/
inductive FieldRequest (types : ArrowTypes)
  | add (newField : Field types)
  | remove (locator : FieldLocator)
  | rename (locator : FieldLocator) (newName : String)
  | updateType (locator : FieldLocator) (newType : types.DataType)
  | updateDoc (locator : FieldLocator) (newDoc : Option String)
  | updateNullability (locator : FieldLocator) (nullable : Bool)
  | updateConsistencyType (locator : FieldLocator)
      (consistencyType : Option SchemaConsistencyType)
  | updateFutureDefault (locator : FieldLocator) (futureDefault : Option types.Default)

namespace SchemaUpdate

variable {types : ArrowTypes}

/-- The schema update after a call. -/
def request (update : SchemaUpdate types) : FieldRequest types → Except Error (SchemaUpdate types)
  | .add newField => .ok (update.addField newField)
  | .remove locator => .ok (update.removeField locator)
  | .rename locator newName => update.renameField locator newName
  | .updateType locator newType => update.updateFieldType locator newType
  | .updateDoc locator newDoc => update.updateFieldDoc locator newDoc
  | .updateNullability locator nullable => update.updateFieldNullability locator nullable
  | .updateConsistencyType locator consistencyType =>
      update.updateFieldConsistencyType locator consistencyType
  | .updateFutureDefault locator futureDefault =>
      update.updateFieldFutureDefault locator futureDefault

/-- `schema.update(...)`, the given calls, and `apply()`. -/
def evolve (schema : Schema types) (allowIncompatibleChanges : Bool)
    (requests : List (FieldRequest types)) : Except Error (Schema types) := do
  let update ← requests.foldlM request ⟨schema, allowIncompatibleChanges, []⟩
  update.apply

end SchemaUpdate

end Deltacat.Storage
