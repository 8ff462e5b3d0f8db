import Deltacat.Storage.CumulativeUpdates

/-!
# Coercion of tables

Before a table is written, its columns are brought to the types of the schema. With automatic
evolution, a column that the schema lacks becomes a new field. Its identifier is chosen twice:
for the column, as the one after the greatest identifier of the schema, and by the schema
update, which counts on from there. The two agree if at most one column is new.

Arrow columns and what PyArrow does with them are a parameter.
-/

namespace Deltacat.Storage

open Deltacat.Library SchemaUpdate

/-- Columns, with the PyArrow functions that take them; `none` stands for an Arrow error. -/
structure ArrowColumns (types : ArrowTypes) where
  Column : Type
  equals : types.DataType → types.DataType → Bool
  type : Column → types.DataType
  cast : Column → types.DataType → Option Column
  /-- The permissive promotion of `pa.unify_schemas`. -/
  unify : types.DataType → types.DataType → Option types.DataType
  castDefault : types.Default → types.DataType → Option types.Default
  /-- `pa.array` of a repeated value. -/
  full : types.Default → ℕ → types.DataType → Option Column
  nulls : ℕ → types.DataType → Column

/-- `SchemaEvolutionMode`. -/
inductive SchemaEvolutionMode
  | manual
  | auto
  | disabled
  deriving DecidableEq, Repr

/-- A table, with the fields of its own schema. -/
structure ColumnTable (types : ArrowTypes) (arrow : ArrowColumns types) where
  columns : List (Field types × arrow.Column)
  numRows : ℕ

/-- What becomes of a column: its data and field, an update of the field, and a new field. -/
structure ProcessedColumn (types : ArrowTypes) (arrow : ArrowColumns types) where
  data : arrow.Column
  schemaField : Field types
  fieldUpdate : Option (Field types)
  newField : Option (Field types)

variable {types : ArrowTypes} {arrow : ArrowColumns types}

namespace Field

/-- `_cast_default_to_promoted_type`, of a default that may be absent. -/
def castDefault (arrow : ArrowColumns types) (default : Option types.Default)
    (promotedType : types.DataType) : Except Error (Option types.Default) :=
  match default with
  | none => .ok none
  | some value =>
      match arrow.castDefault value promotedType with
      | none => .error .schemaValidationError
      | some promoted => .ok (some promoted)

/-- `promote_type_if_needed`: the data, and whether the type of the field changes. -/
def promoteTypeIfNeeded (field : Field types) (columnData : arrow.Column) :
    Except Error (arrow.Column × Bool) :=
  if arrow.equals field.type (arrow.type columnData) then .ok (columnData, false)
  else
    match arrow.unify field.type (arrow.type columnData) with
    | none => .error .schemaValidationError
    | some promotedType =>
        if arrow.equals promotedType field.type then
          -- Data that cannot be cast is left to the conversion at the end.
          .ok ((arrow.cast columnData field.type).getD columnData, false)
        else
          match arrow.cast columnData promotedType with
          | none => .error .schemaValidationError
          | some promotedData => .ok (promotedData, true)

end Field

namespace Schema

variable (schema : Schema types)

/-- `_create_field_name_mapping`: of equal names, the last field counts. -/
def fieldOfName (columnName : String) : Option (Field types) :=
  schema.fields.reverse.find? (·.name = columnName)

/-- `_handle_type_promotion`. -/
def handleTypePromotion (columnData : arrow.Column) (field : Field types) :
    Except Error (ProcessedColumn types arrow) := do
  let (promotedData, typeWasPromoted) ← field.promoteTypeIfNeeded columnData
  if typeWasPromoted then
    let promotedPastDefault ← Field.castDefault arrow field.pastDefault (arrow.type promotedData)
    let promotedFutureDefault ←
      Field.castDefault arrow field.futureDefault (arrow.type promotedData)
    let promotedField := { field with type := arrow.type promotedData }
    let updatedField ← Field.of { promotedField with
      pastDefault := promotedPastDefault
      futureDefault := promotedFutureDefault }
    return ⟨promotedData, promotedField, some updatedField, none⟩
  else return ⟨promotedData, field, none, none⟩

/-- `_handle_new_field`. -/
def handleNewField (columnName : String) (columnData : arrow.Column)
    (schemaEvolutionMode : Option SchemaEvolutionMode)
    (defaultSchemaConsistencyType : Option SchemaConsistencyType) :
    Except Error (ProcessedColumn types arrow) := do
  if schemaEvolutionMode = some .auto then
    let newField ← Field.of {
      name := columnName
      type := arrow.type columnData
      nullable := true
      id := some (schema.maxFieldId + 1)
      isMergeKey := false
      mergeOrder := none
      isEventTime := false
      doc := none
      pastDefault := none
      futureDefault := none
      consistencyType := some (defaultSchemaConsistencyType.getD .none) }
    return ⟨columnData, newField, none, some newField⟩
  else throw .schemaValidationError

/-- `_process_existing_table_column`. -/
def processExistingTableColumn (columnName : String) (columnData : arrow.Column)
    (schemaEvolutionMode : Option SchemaEvolutionMode)
    (defaultSchemaConsistencyType : Option SchemaConsistencyType) :
    Except Error (ProcessedColumn types arrow) :=
  match schema.fieldOfName columnName with
  | some field =>
      match field.consistencyType with
      | some .validate =>
          if arrow.equals (arrow.type columnData) field.type then
            .ok ⟨columnData, field, none, none⟩
          else .error .schemaValidationError
      | some .coerce =>
          match arrow.cast columnData field.type with
          | some coercedData => .ok ⟨coercedData, field, none, none⟩
          | none => .error .schemaValidationError
      | some .none | none => handleTypePromotion columnData field
  | none =>
      schema.handleNewField columnName columnData schemaEvolutionMode defaultSchemaConsistencyType

/-- `_add_missing_schema_fields`: the column of a field that the table lacks. -/
def addMissingSchemaField (numRows : ℕ) (field : Field types) :
    Except Error (Field types × arrow.Column) :=
  match field.futureDefault with
  | some futureDefault =>
      match arrow.full futureDefault numRows field.type with
      | some defaultArray => .ok (field, defaultArray)
      | none => .error .arrowInvalid
  | none =>
      if field.nullable then .ok (field, arrow.nulls numRows field.type)
      else .error .schemaValidationError

/-- `_apply_schema_updates`. -/
def applySchemaUpdates (fieldUpdates newFields : List (Field types)) :
    Except Error (Schema types) :=
  if fieldUpdates = [] ∧ newFields = [] then .ok schema
  else SchemaUpdate.apply {
    baseSchema := schema
    allowIncompatibleChanges := true
    operations := fieldUpdates.map (fun field => .update (.name field.name) field) ++
      newFields.map .add }

/-- `pa.table`, which casts each column to the type of its field. -/
def toTable (columns : List (Field types × arrow.Column)) :
    Except Error (List (Field types × arrow.Column)) :=
  columns.mapM fun (field, columnData) =>
    if arrow.equals (arrow.type columnData) field.type then .ok (field, columnData)
    else
      match arrow.cast columnData field.type with
      | some converted => .ok (field, converted)
      | none => .error .arrowInvalid

/-- `table.column(name)`, which refuses a name that several columns have. -/
def column (table : ColumnTable types arrow) (columnName : String) : Except Error arrow.Column :=
  match table.columns.filter (·.1.name = columnName) with
  | [(_, columnData)] => .ok columnData
  | _ => .error .keyError

/-- `_validate_and_coerce_table`: the columns of the new table, and the updated schema. -/
def validateAndCoerceTable (table : ColumnTable types arrow)
    (schemaEvolutionMode : Option SchemaEvolutionMode)
    (defaultSchemaConsistencyType : Option SchemaConsistencyType) :
    Except Error (List (Field types × arrow.Column) × Schema types) :=
  if schema.fields = [] then .ok (table.columns, schema)
  else do
    let columnNames := table.columns.map (·.1.name)
    let processed ← columnNames.mapM fun columnName => do
      let columnData ← column table columnName
      schema.processExistingTableColumn columnName columnData schemaEvolutionMode
        defaultSchemaConsistencyType
    let missing ← (schema.fields.filter (·.name ∉ columnNames)).mapM
      (addMissingSchemaField table.numRows)
    let updatedSchema ← schema.applySchemaUpdates (processed.filterMap (·.fieldUpdate))
      (processed.filterMap (·.newField))
    let columns ← toTable (processed.map (fun result => (result.schemaField, result.data)) ++
      missing)
    return (columns, updatedSchema)

end Schema

section Specification

/-- The name and the identifier of a field. -/
def Field.key (field : Field types) : String × Option ℤ := (field.name, field.id)

/-- The columns that the schema does not have. -/
def newColumns (schema : Schema types) (table : ColumnTable types arrow) : List String :=
  (table.columns.map (·.1.name)).filter (· ∉ schema.fields.map (·.name))

/--
Every column has the identifier of the field of its name, no two columns have the same
identifier, and the fields of the schema keep theirs.
-/
structure AgreesWithData (schema : Schema types) (columns : List (Field types × arrow.Column))
    (updated : Schema types) : Prop where
  sameIds : ∀ column ∈ columns, column.1.id.isSome ∧
    ∃ field ∈ updated.fields, field.name = column.1.name ∧ field.id = column.1.id
  distinct : (columns.map (·.1.id)).Nodup
  keepsIds : ∀ field ∈ schema.fields,
    ∃ updatedField ∈ updated.fields, updatedField.name = field.name ∧ updatedField.id = field.id

end Specification

section Update

variable {update : SchemaUpdate types} {state final : ApplyState types}

/-- The names lead to the fields that have them. -/
def LeadsByName (state : ApplyState types) : Prop :=
  ∀ name index, state.fieldNameToIndex name = some index →
    ∃ field, state.fields[index]? = some field ∧ field.name = name

theorem map_name_eq (fields : List (Field types)) :
    fields.map (·.name) = (fields.map Field.key).map Prod.fst := by
  simp [Field.key]

/-- The keys of new fields, with identifiers that are counted up. -/
def numbered : ℤ → List (Field types) → List (String × Option ℤ)
  | _, [] => []
  | nextId, field :: fields => (field.name, some nextId) :: numbered (nextId + 1) fields

theorem applyUpdateField_at {locator : FieldLocator} {updatedField : Field types}
    (isNext : update.applyUpdateField state locator updatedField = .ok final) :
    ∃ index oldField, state.fieldNameToIndex (update.getFieldName locator) = some index ∧
      state.fields[index]? = some oldField := by
  cases isIndex : state.fieldNameToIndex (update.getFieldName locator) with
  | none => simp [applyUpdateField, isIndex, throw, throwThe, MonadExceptOf.throw] at isNext
  | some index =>
      cases isOld : state.fields[index]? with
      | none =>
          simp [applyUpdateField, isIndex, isOld, throw, throwThe, MonadExceptOf.throw] at isNext
      | some oldField => exact ⟨index, oldField, rfl, isOld⟩

/-- Updates that keep the key of their field keep all keys. -/
theorem keys_updates {fields : List (Field types)}
    (names : (state.fields.map (·.name)).Nodup)
    (keepKeys : ∀ field ∈ fields, field.key ∈ state.fields.map Field.key)
    (leads : LeadsByName state)
    (isFinal : (fields.map fun field =>
      SchemaUpdateOperation.update (.name field.name) field).foldlM update.applyOperation state =
        .ok final) :
    final.fields.map Field.key = state.fields.map Field.key ∧ LeadsByName final ∧
      final.nextAvailableFieldId = state.nextAvailableFieldId := by
  induction fields generalizing state with
  | nil =>
      cases isFinal
      exact ⟨rfl, leads, rfl⟩
  | cons field fields ih =>
      rw [List.map_cons, List.foldlM_cons] at isFinal
      rw [List.forall_mem_cons] at keepKeys
      rcases except_bind_eq_ok.mp isFinal with ⟨next, isNext, afterNext⟩
      rcases applyUpdateField_at isNext with ⟨index, oldField, isIndex, isOld⟩
      rcases leads _ _ isIndex with ⟨ledField, isLed, sameName⟩
      obtain rfl : oldField = ledField := Option.some.inj (isOld.symm.trans isLed)
      have isResult := ((applyUpdateField_eq_ok_iff isIndex isOld).mp isNext).2
      rw [if_pos (show update.getFieldName (.name field.name) = field.name from rfl)] at isResult
      have sameKey : field.withDefaults.key = oldField.key := by
        rcases List.mem_map.mp keepKeys.1 with ⟨other, otherMem, otherKey⟩
        have otherName : other.name = oldField.name :=
          (congrArg Prod.fst otherKey).trans sameName.symm
        rw [← List.inj_on_of_nodup_map names otherMem (List.mem_of_getElem? isOld) otherName]
        exact otherKey.symm
      have sameKeys : next.fields.map Field.key = state.fields.map Field.key := by
        rw [isResult]
        exact map_set_eq Field.key isOld sameKey
      have nextLeads : LeadsByName next := by
        intro name other isOther
        rw [isResult] at isOther ⊢
        rcases leads name other isOther with ⟨found, isFound, isName⟩
        by_cases same : other = index
        · subst same
          obtain rfl : oldField = found := Option.some.inj (isOld.symm.trans isFound)
          exact ⟨field.withDefaults,
            List.getElem?_set_self (List.getElem?_eq_some_iff.mp isOld).1,
            (congrArg Prod.fst sameKey).trans isName⟩
        · exact ⟨found, by simpa [List.getElem?_set_ne (Ne.symm same)] using isFound, isName⟩
      have sameId : next.nextAvailableFieldId = state.nextAvailableFieldId := by rw [isResult]
      rcases ih (by rwa [map_name_eq, sameKeys, ← map_name_eq])
        (by rw [sameKeys]; exact keepKeys.2) nextLeads
        afterNext with ⟨keys, finalLeads, finalId⟩
      exact ⟨keys.trans sameKeys, finalLeads, finalId.trans sameId⟩

/-- Additions number the new fields. -/
theorem keys_adds {fields : List (Field types)}
    (isFinal : (fields.map SchemaUpdateOperation.add).foldlM update.applyOperation state =
      .ok final) :
    final.fields.map Field.key =
      state.fields.map Field.key ++ numbered state.nextAvailableFieldId fields := by
  induction fields generalizing state with
  | nil =>
      cases isFinal
      simp [numbered]
  | cons field fields ih =>
      rw [List.map_cons, List.foldlM_cons] at isFinal
      rcases except_bind_eq_ok.mp isFinal with ⟨next, isNext, afterNext⟩
      rcases applyAddField_eq_ok isNext with ⟨added, sameName, isId, rfl⟩
      rw [ih afterNext]
      simp [numbered, Field.key, sameName, isId]

theorem keys_populated {built fields : List (Field types)}
    (areBuilt : List.Forall₂ Schema.Populated built fields)
    (identified : ∀ field ∈ fields, field.id.isSome) :
    built.map Field.key = fields.map Field.key := by
  induction areBuilt with
  | nil => rfl
  | cons isBuilt _ ih =>
      rw [List.forall_mem_cons] at identified
      rcases isBuilt with ⟨id, rfl, keepsId⟩
      rcases Option.isSome_iff_exists.mp identified.1 with ⟨given, isGiven⟩
      rw [List.map_cons, List.map_cons, ih identified.2]
      simp [Field.key, isGiven, keepsId given isGiven]

theorem isSome_of_mem_numbered {nextId : ℤ} {fields : List (Field types)}
    {key : String × Option ℤ} (keyMem : key ∈ numbered nextId fields) : key.2.isSome := by
  induction fields generalizing nextId with
  | nil => cases keyMem
  | cons field fields ih =>
      rcases List.mem_cons.mp keyMem with rfl | isLater
      · rfl
      · exact ih isLater

/-- The names and identifiers after updates that keep them and additions. -/
theorem keys_applySchemaUpdates {schema updated : Schema types} (wellFormed : schema.WellFormed)
    {fieldUpdates newFields : List (Field types)}
    (keepKeys : ∀ field ∈ fieldUpdates, field.key ∈ schema.fields.map Field.key)
    (isUpdated : schema.applySchemaUpdates fieldUpdates newFields = .ok updated) :
    updated.fields.map Field.key =
      schema.fields.map Field.key ++ numbered (schema.maxFieldId + 1) newFields := by
  unfold Schema.applySchemaUpdates at isUpdated
  split_ifs at isUpdated with isEmpty
  · cases isUpdated
    simp [isEmpty.2, numbered]
  · rcases exists_of_apply isUpdated with ⟨final, isFinal, newSchema, isSchema, rfl⟩
    rw [List.foldlM_append] at isFinal
    rcases except_bind_eq_ok.mp isFinal with ⟨middle, isMiddle, afterMiddle⟩
    have leads : LeadsByName ⟨schema.fields, nameToIndex schema.fields, schema.maxFieldId + 1⟩ :=
      fun name index isIndex => nameToIndex_eq_some isIndex
    rcases keys_updates (Schema.nodup_names wellFormed.names) keepKeys leads isMiddle with
      ⟨middleKeys, -, middleId⟩
    have finalKeys := keys_adds afterMiddle
    rw [middleKeys, middleId] at finalKeys
    have identified : ∀ field ∈ final.fields, field.id.isSome := by
      intro field fieldMem
      have keyMem : field.key ∈ final.fields.map Field.key := List.mem_map_of_mem fieldMem
      rw [finalKeys, List.mem_append] at keyMem
      rcases keyMem with isOld | isNew
      · rcases List.mem_map.mp isOld with ⟨old, oldMem, sameKey⟩
        rcases wellFormed.identified old oldMem with ⟨id, isId⟩
        have sameId : field.id = old.id := (congrArg Prod.snd sameKey).symm
        simp [sameId, isId]
      · exact isSome_of_mem_numbered isNew
    rw [keys_populated (Schema.populated_of_of isSchema) identified, finalKeys]

end Update

section Columns

variable {schema updated : Schema types} {table : ColumnTable types arrow}
  {defaultSchemaConsistencyType : Option SchemaConsistencyType}

/-- What becomes of a column that the schema has, or that it lacks. -/
structure IsProcessed (schema : Schema types) (columnName : String)
    (result : ProcessedColumn types arrow) : Prop where
  name : result.schemaField.name = columnName
  existing : columnName ∈ schema.fields.map (·.name) →
    result.schemaField.key ∈ schema.fields.map Field.key ∧
      (∀ field ∈ result.fieldUpdate, field.key ∈ schema.fields.map Field.key) ∧
      result.newField = none
  new : columnName ∉ schema.fields.map (·.name) →
    result.schemaField.id = some (schema.maxFieldId + 1) ∧ result.fieldUpdate = none ∧
      result.newField = some result.schemaField

theorem fieldOfName_eq_some {columnName : String} {field : Field types}
    (isField : schema.fieldOfName columnName = some field) :
    field ∈ schema.fields ∧ field.name = columnName := by
  unfold Schema.fieldOfName at isField
  exact ⟨by simpa using List.mem_of_find?_eq_some isField, by simpa using List.find?_some isField⟩

theorem fieldOfName_eq_none {columnName : String} (isNone : schema.fieldOfName columnName = none) :
    columnName ∉ schema.fields.map (·.name) := by
  unfold Schema.fieldOfName at isNone
  simpa using isNone

theorem key_handleTypePromotion {columnData : arrow.Column} {field : Field types}
    {result : ProcessedColumn types arrow}
    (isResult : Schema.handleTypePromotion columnData field = .ok result) :
    result.schemaField.key = field.key ∧ (∀ updatedField ∈ result.fieldUpdate,
      updatedField.key = field.key) ∧ result.newField = none := by
  unfold Schema.handleTypePromotion at isResult
  rcases except_bind_eq_ok.mp isResult with ⟨⟨promotedData, typeWasPromoted⟩, -, afterPromotion⟩
  cases typeWasPromoted with
  | false =>
      cases afterPromotion
      simp
  | true =>
      rcases except_bind_eq_ok.mp afterPromotion with ⟨_, -, afterPast⟩
      rcases except_bind_eq_ok.mp afterPast with ⟨_, -, afterFuture⟩
      rcases except_bind_eq_ok.mp afterFuture with ⟨updatedField, isUpdated, isResult⟩
      cases isResult
      have isUpdated := Field.of_eq_ok isUpdated
      simp [isUpdated, Field.key, Field.withDefaults]

theorem isProcessed {columnName : String} {columnData : arrow.Column}
    {result : ProcessedColumn types arrow}
    (isResult : schema.processExistingTableColumn columnName columnData (some .auto)
      defaultSchemaConsistencyType = .ok result) :
    IsProcessed schema columnName result := by
  unfold Schema.processExistingTableColumn at isResult
  cases isField : schema.fieldOfName columnName with
  | some field =>
      rcases fieldOfName_eq_some isField with ⟨fieldMem, sameName⟩
      have spec : result.schemaField.key = field.key ∧ (∀ updatedField ∈ result.fieldUpdate,
          updatedField.key = field.key) ∧ result.newField = none := by
        rw [isField] at isResult
        simp only at isResult
        split at isResult
        · split_ifs at isResult
          cases isResult
          simp
        · split at isResult <;> cases isResult
          simp
        · exact key_handleTypePromotion isResult
        · exact key_handleTypePromotion isResult
      have keyMem : field.key ∈ schema.fields.map Field.key := List.mem_map_of_mem fieldMem
      refine ⟨(congrArg Prod.fst spec.1).trans sameName, fun _ => ⟨by rwa [spec.1], ?_, spec.2.2⟩,
        fun isNew => absurd (List.mem_map_of_mem fieldMem) (sameName ▸ isNew)⟩
      intro updatedField isUpdated
      rwa [spec.2.1 updatedField isUpdated]
  | none =>
      rw [isField] at isResult
      have isNew := fieldOfName_eq_none isField
      rcases except_bind_eq_ok.mp isResult with ⟨newField, isBuilt, isResult⟩
      cases isResult
      have isBuilt := Field.of_eq_ok isBuilt
      exact ⟨by rw [isBuilt]; rfl, fun isOld => absurd isOld isNew,
        fun _ => ⟨by rw [isBuilt]; rfl, rfl, rfl⟩⟩

/-- A table whose columns can be read by name has distinct names. -/
theorem nodup_columnNames
    (readable : ∀ column ∈ table.columns, ∃ columnData,
      Schema.column table column.1.name = .ok columnData) :
    (table.columns.map (·.1.name)).Nodup := by
  rw [List.nodup_iff_count_le_one]
  intro columnName
  by_cases isName : columnName ∈ table.columns.map (·.1.name)
  · rcases List.mem_map.mp isName with ⟨column, columnMem, rfl⟩
    rcases readable column columnMem with ⟨columnData, isData⟩
    unfold Schema.column at isData
    split at isData
    · rename_i isSingle
      have sameLength := congrArg List.length isSingle
      rw [List.count_eq_countP, List.countP_map, List.countP_eq_length_filter]
      exact le_of_eq sameLength
    · cases isData
  · rw [List.count_eq_zero_of_not_mem isName]
    exact Nat.zero_le 1

theorem fields_toTable {columns converted : List (Field types × arrow.Column)}
    (isConverted : Schema.toTable columns = .ok converted) :
    converted.map Prod.fst = columns.map Prod.fst := by
  have each := except_mapM_eq_ok_iff.mp isConverted
  clear isConverted
  induction each with
  | nil => rfl
  | @cons column result columns converted isResult _ ih =>
      rw [List.map_cons, List.map_cons, ih]
      congr 1
      rcases column with ⟨field, columnData⟩
      simp only at isResult
      split_ifs at isResult
      · cases isResult
        rfl
      · split at isResult <;> cases isResult
        rfl

theorem fields_missing {numRows : ℕ} {fields : List (Field types)}
    {missing : List (Field types × arrow.Column)}
    (isMissing : fields.mapM (Schema.addMissingSchemaField numRows) = .ok missing) :
    missing.map Prod.fst = fields := by
  have each := except_mapM_eq_ok_iff.mp isMissing
  clear isMissing
  induction each with
  | nil => rfl
  | @cons field result fields missing isResult _ ih =>
      rw [List.map_cons, ih]
      congr 1
      unfold Schema.addMissingSchemaField at isResult
      split at isResult
      · split at isResult <;> cases isResult
        rfl
      · split_ifs at isResult
        cases isResult
        rfl

/-- The columns and the schema that are returned. -/
theorem exists_processed (nonempty : schema.fields ≠ [])
    {columns : List (Field types × arrow.Column)}
    (isResult : schema.validateAndCoerceTable table (some .auto) defaultSchemaConsistencyType =
      .ok (columns, updated)) :
    (table.columns.map (·.1.name)).Nodup ∧ ∃ processed : List (ProcessedColumn types arrow),
      List.Forall₂ (IsProcessed schema) (table.columns.map (·.1.name)) processed ∧
      columns.map Prod.fst = processed.map (·.schemaField) ++
        schema.fields.filter (·.name ∉ table.columns.map (·.1.name)) ∧
      schema.applySchemaUpdates (processed.filterMap (·.fieldUpdate))
        (processed.filterMap (·.newField)) = .ok updated := by
  unfold Schema.validateAndCoerceTable at isResult
  rw [if_neg nonempty] at isResult
  rcases except_bind_eq_ok.mp isResult with ⟨processed, isProcessed, afterProcessed⟩
  rcases except_bind_eq_ok.mp afterProcessed with ⟨missing, isMissing, afterMissing⟩
  rcases except_bind_eq_ok.mp afterMissing with ⟨updatedSchema, isUpdated, afterUpdated⟩
  rcases except_bind_eq_ok.mp afterUpdated with ⟨converted, isConverted, isPair⟩
  cases isPair
  have each := except_mapM_eq_ok_iff.mp isProcessed
  refine ⟨?_, processed, ?_, ?_, isUpdated⟩
  · apply nodup_columnNames
    intro column columnMem
    rcases exists_of_forall₂ each (List.mem_map_of_mem columnMem) with ⟨_, -, isColumn⟩
    rcases except_bind_eq_ok.mp isColumn with ⟨columnData, isData, -⟩
    exact ⟨columnData, isData⟩
  · apply each.imp
    intro columnName result isColumn
    rcases except_bind_eq_ok.mp isColumn with ⟨columnData, -, isColumn⟩
    exact Storage.isProcessed isColumn
  · rw [fields_toTable isConverted, List.map_append, fields_missing isMissing]
    simp

variable {columnNames : List String} {processed : List (ProcessedColumn types arrow)}

theorem names_processed (areProcessed : List.Forall₂ (IsProcessed schema) columnNames processed) :
    (processed.map (·.schemaField)).map (·.name) = columnNames := by
  induction areProcessed with
  | nil => rfl
  | cons isProcessed _ ih => rw [List.map_cons, List.map_cons, isProcessed.name, ih]

/-- The new fields are those of the new columns. -/
theorem newFields_processed
    (areProcessed : List.Forall₂ (IsProcessed schema) columnNames processed) :
    processed.filterMap (·.newField) =
      (processed.map (·.schemaField)).filter (·.name ∉ schema.fields.map (·.name)) := by
  induction areProcessed with
  | nil => rfl
  | @cons columnName result columnNames processed isProcessed _ ih =>
      rw [List.filterMap_cons, List.map_cons, List.filter_cons, ih, isProcessed.name]
      by_cases isOld : columnName ∈ schema.fields.map (·.name)
      · simp [(isProcessed.existing isOld).2.2, isOld]
      · simp [(isProcessed.new isOld).2.2, isOld]

theorem length_newFields
    (areProcessed : List.Forall₂ (IsProcessed schema) columnNames processed) :
    (processed.filterMap (·.newField)).length =
      (columnNames.filter (· ∉ schema.fields.map (·.name))).length := by
  rw [newFields_processed areProcessed, ← names_processed areProcessed]
  simp [List.filter_map, Function.comp_def]

theorem id_of_mem_newFields
    (areProcessed : List.Forall₂ (IsProcessed schema) columnNames processed)
    {field : Field types} (fieldMem : field ∈ processed.filterMap (·.newField)) :
    field.id = some (schema.maxFieldId + 1) := by
  rcases List.mem_filterMap.mp fieldMem with ⟨result, resultMem, isNew⟩
  rcases exists_of_forall₂ areProcessed.flip resultMem with ⟨columnName, -, isProcessed⟩
  by_cases isOld : columnName ∈ schema.fields.map (·.name)
  · rw [(isProcessed.existing isOld).2.2] at isNew
    cases isNew
  · rcases isProcessed.new isOld with ⟨isId, -, isField⟩
    rw [isField] at isNew
    cases isNew
    exact isId

theorem keepKeys_processed
    (areProcessed : List.Forall₂ (IsProcessed schema) columnNames processed) :
    ∀ field ∈ processed.filterMap (·.fieldUpdate), field.key ∈ schema.fields.map Field.key := by
  intro field fieldMem
  rcases List.mem_filterMap.mp fieldMem with ⟨result, resultMem, isUpdate⟩
  rcases exists_of_forall₂ areProcessed.flip resultMem with ⟨columnName, -, isProcessed⟩
  by_cases isOld : columnName ∈ schema.fields.map (·.name)
  · exact (isProcessed.existing isOld).2.1 field isUpdate
  · rw [(isProcessed.new isOld).2.1] at isUpdate
    cases isUpdate

/-- With one new field at most, the update gives it the identifier of its column. -/
theorem numbered_of_length_le_one {nextId : ℤ} {fields : List (Field types)}
    (atMostOne : fields.length ≤ 1) (areNext : ∀ field ∈ fields, field.id = some nextId) :
    numbered nextId fields = fields.map Field.key := by
  cases fields with
  | nil => rfl
  | cons field fields =>
      obtain rfl : fields = [] := by simpa using atMostOne
      simp [numbered, Field.key, areNext field List.mem_cons_self]

theorem le_greatestId {fields : List (Field types)} {field : Field types} {id : ℤ}
    (fieldMem : field ∈ fields) (isId : field.id = some id) : id ≤ Schema.greatestId fields := by
  have idMem : id ∈ Field.ids fields := Field.mem_ids.mpr ⟨field, fieldMem, isId⟩
  exact (Schema.greatestId_spec (List.ne_nil_of_mem idMem)).2 id idMem

/-- The identifiers of the fields of the schema and of at most one new one are distinct. -/
theorem nodup_ids (wellFormed : schema.WellFormed) {newFields : List (Field types)}
    (atMostOne : newFields.length ≤ 1)
    (areNext : ∀ field ∈ newFields, field.id = some (schema.maxFieldId + 1)) :
    ((schema.fields.map Field.key ++ newFields.map Field.key).map Prod.snd).Nodup := by
  have snd_key : ∀ fields : List (Field types), (fields.map Field.key).map Prod.snd =
      fields.map (·.id) := by simp [Field.key]
  rw [List.map_append, snd_key, snd_key, List.nodup_append]
  refine ⟨?_, ?_, ?_⟩
  · rw [wellFormed.identified.map_id]
    exact wellFormed.ids.map (Option.some_injective _)
  · cases newFields with
    | nil => exact List.nodup_nil
    | cons field fields =>
        obtain rfl : fields = [] := by simpa using atMostOne
        simp
  · rintro id isOld other isNew rfl
    rcases List.mem_map.mp isOld with ⟨old, oldMem, oldId⟩
    rcases List.mem_map.mp isNew with ⟨new, newMem, newId⟩
    have isNext : old.id = some (schema.maxFieldId + 1) :=
      oldId.trans (newId.symm.trans (areNext new newMem))
    have isBound := (le_greatestId oldMem isNext).trans wellFormed.atMost
    omega

/-- Automatic evolution agrees with the data exactly if at most one column is new. -/
theorem agreesWithData_iff (wellFormed : schema.WellFormed)
    {columns : List (Field types × arrow.Column)}
    (isResult : schema.validateAndCoerceTable table (some .auto) defaultSchemaConsistencyType =
      .ok (columns, updated)) :
    AgreesWithData schema columns updated ↔ (newColumns schema table).length ≤ 1 := by
  have nonempty : schema.fields ≠ [] := by
    intro isEmpty
    have names := wellFormed.names
    simp [Schema.validateFieldNames, isEmpty] at names
  rcases exists_processed nonempty isResult with
    ⟨namesNodup, processed, areProcessed, isColumns, isUpdated⟩
  have keys := keys_applySchemaUpdates wellFormed (keepKeys_processed areProcessed) isUpdated
  have areNext : ∀ field ∈ processed.filterMap (·.newField),
      field.id = some (schema.maxFieldId + 1) :=
    fun field fieldMem => id_of_mem_newFields areProcessed fieldMem
  rw [newColumns, ← length_newFields areProcessed]
  constructor
  · rintro ⟨-, distinct, -⟩
    have areNew : (processed.filterMap (·.newField)).map (·.id) =
        List.replicate (processed.filterMap (·.newField)).length
          (some (schema.maxFieldId + 1)) := by
      rw [List.eq_replicate_iff]
      refine ⟨List.length_map _, ?_⟩
      intro id idMem
      rcases List.mem_map.mp idMem with ⟨field, fieldMem, rfl⟩
      exact areNext field fieldMem
    have isPart : List.Sublist (processed.filterMap (·.newField)) (columns.map Prod.fst) := by
      rw [isColumns, newFields_processed areProcessed]
      exact List.filter_sublist.trans (List.sublist_append_left _ _)
    have distinct : ((columns.map Prod.fst).map (·.id)).Nodup := by
      rw [List.map_map]
      exact distinct
    have nodup := distinct.sublist (isPart.map (·.id))
    rwa [areNew, List.nodup_replicate] at nodup
  · intro atMostOne
    rw [numbered_of_length_le_one atMostOne areNext] at keys
    have idsNodup := nodup_ids wellFormed atMostOne areNext
    rw [← keys] at idsNodup
    have columnKeys : ∀ field ∈ columns.map Prod.fst,
        field.key ∈ updated.fields.map Field.key := by
      intro field fieldMem
      rw [keys, List.mem_append]
      rw [isColumns] at fieldMem
      rcases List.mem_append.mp fieldMem with isProcessed | isMissing
      · rcases List.mem_map.mp isProcessed with ⟨result, resultMem, rfl⟩
        rcases exists_of_forall₂ areProcessed.flip resultMem with ⟨columnName, -, isProcessed⟩
        by_cases isOld : columnName ∈ schema.fields.map (·.name)
        · exact .inl (isProcessed.existing isOld).1
        · exact .inr (List.mem_map_of_mem
            (List.mem_filterMap.mpr ⟨result, resultMem, (isProcessed.new isOld).2.2⟩))
      · exact .inl (List.mem_map_of_mem (List.mem_of_mem_filter isMissing))
    have columnNames : ((columns.map Prod.fst).map (·.name)).Nodup := by
      rw [isColumns, List.map_append, names_processed areProcessed, List.nodup_append]
      refine ⟨namesNodup, ?_, ?_⟩
      · exact (Schema.nodup_names wellFormed.names).sublist (List.filter_sublist.map _)
      · rintro name isTable other isMissing rfl
        rcases List.mem_map.mp isMissing with ⟨field, fieldMem, rfl⟩
        have isAbsent := List.of_mem_filter fieldMem
        exact absurd isTable (by simpa using isAbsent)
    refine ⟨?_, ?_, ?_⟩
    · intro column columnMem
      have keyMem := columnKeys column.1 (List.mem_map_of_mem columnMem)
      rcases List.mem_map.mp keyMem with ⟨field, fieldMem, sameKey⟩
      refine ⟨?_, field, fieldMem, congrArg Prod.fst sameKey, congrArg Prod.snd sameKey⟩
      rw [keys, List.mem_append] at keyMem
      rcases keyMem with isOld | isNew
      · rcases List.mem_map.mp isOld with ⟨old, oldMem, oldKey⟩
        rcases wellFormed.identified old oldMem with ⟨id, isId⟩
        rw [← show old.id = column.1.id from congrArg Prod.snd oldKey, isId]
        rfl
      · rcases List.mem_map.mp isNew with ⟨new, newMem, newKey⟩
        rw [← show new.id = column.1.id from congrArg Prod.snd newKey, areNext new newMem]
        rfl
    · have distinct : ((columns.map Prod.fst).map (·.id)).Nodup := by
        apply (List.Nodup.of_map _ columnNames).map_on
        intro left leftMem right rightMem sameId
        apply List.inj_on_of_nodup_map columnNames leftMem rightMem
        exact congrArg Prod.fst (List.inj_on_of_nodup_map idsNodup (columnKeys left leftMem)
          (columnKeys right rightMem) sameId)
      rw [List.map_map] at distinct
      exact distinct
    · intro field fieldMem
      have keyMem : field.key ∈ updated.fields.map Field.key := by
        rw [keys]
        exact List.mem_append_left _ (List.mem_map_of_mem fieldMem)
      rcases List.mem_map.mp keyMem with ⟨updatedField, updatedMem, sameKey⟩
      exact ⟨updatedField, updatedMem, congrArg Prod.fst sameKey, congrArg Prod.snd sameKey⟩

end Columns

section Examples

open SchemaHistory

/-- Columns of integers and nulls. -/
def integerColumns : ArrowColumns integerTypes where
  Column := List (Option ℤ)
  equals := fun _ _ => true
  type := fun _ => ()
  cast := fun column _ => some column
  unify := fun _ _ => some ()
  castDefault := fun value _ => some value
  full := fun value length _ => some (List.replicate length (some value))
  nulls := fun length _ => List.replicate length none

/-- A table with one row. -/
def integerRow (names : List String) : ColumnTable integerTypes integerColumns :=
  ⟨names.map fun name => (integerField name, [some 5]), 1⟩

private theorem coerced_isSome :
    (letters.validateAndCoerceTable (integerRow ["c", "a"]) (some .auto) none).toOption.isSome := by
  decide +kernel

/-- One of the two columns is new. -/
theorem agreesWithData_oneNew :
    ∃ columns updated, letters.validateAndCoerceTable (integerRow ["c", "a"]) (some .auto) none =
      .ok (columns, updated) ∧ AgreesWithData letters columns updated := by
  have isResult := toOption_eq_some.mp (Option.some_get coerced_isSome).symm
  refine ⟨_, _, isResult, ?_⟩
  apply (agreesWithData_iff (Schema.wellFormed_of letters_eq) isResult).mpr
  decide +kernel

/-- Two new columns get one identifier. -/
theorem not_agreesWithData :
    ∃ columns updated, letters.validateAndCoerceTable (integerRow ["c", "d"]) (some .auto) none =
      .ok (columns, updated) ∧ ¬AgreesWithData letters columns updated := by
  have isResult : (letters.validateAndCoerceTable (integerRow ["c", "d"]) (some .auto)
      none).toOption.map (fun result => result.1.map (·.1.id)) =
        some [some 2, some 2, some 0, some 1] := by decide +kernel
  rcases Option.map_eq_some_iff.mp isResult with ⟨⟨columns, updated⟩, isResult, areIds⟩
  refine ⟨columns, updated, toOption_eq_some.mp isResult, ?_⟩
  rintro ⟨-, distinct, -⟩
  have nodup : ([some 2, some 2, some 0, some 1] : List (Option ℤ)).Nodup := areIds ▸ distinct
  exact absurd nodup (by decide)

end Examples

end Deltacat.Storage
