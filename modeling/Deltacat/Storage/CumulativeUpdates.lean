import Deltacat.Storage.SchemaFields

/-!
# Cumulative schema updates

The calls of a schema update keep changed copies of fields under the locators they were given.
A later call continues with the last copy under a locator that matches its own, where a field
identifier matches no name. Applying the copies one after the other looks up each field by
its name in the base schema, which is gone after a renaming.

Calls whose locators match each other, with at most the last one renaming the field, are
equal to updates that are applied one at a time. In both cases building a field fills in the
default and the consistency type that a call took away, if the field has a past default or
decides how rows are merged (`KeepsDefaults`).
-/

namespace Deltacat.Storage

open Deltacat.Library SchemaUpdate SchemaUpdateOperation

variable {types : ArrowTypes}

/-- A locator of a field: its name, its path or its identifier. -/
def FieldLocator.Locates (field : Field types) : FieldLocator → Prop
  | .name fieldName => fieldName = field.name
  | .path nestedFieldName => nestedFieldName = [field.name]
  | .id fieldId => field.id = some fieldId

namespace FieldRequest

/-- The copy of the field that a call appends. -/
def change : FieldRequest types → Field types → Field types
  | .add _, field | .remove _, field => field
  | .rename _ newName, field => { field with name := newName }
  | .updateType _ newType, field => { field with type := newType }
  | .updateDoc _ newDoc, field => { field with doc := newDoc }
  | .updateNullability _ nullable, field => { field with nullable := nullable }
  | .updateConsistencyType _ consistencyType, field =>
      { field with consistencyType := consistencyType }
  | .updateFutureDefault _ futureDefault, field => { field with futureDefault := futureDefault }

/-- Renaming, and updates of the type, the doc, the default and the consistency type. -/
def IsCumulative : FieldRequest types → Prop
  | .rename _ _ | .updateType _ _ | .updateDoc _ _ | .updateConsistencyType _ _
  | .updateFutureDefault _ _ => True
  | .add _ | .remove _ | .updateNullability _ _ => False

/-- The call addresses a field by its name, its path or its identifier. -/
def Addresses (request : FieldRequest types) (field : Field types) : Prop :=
  ∃ locator, request.fieldLocator = some locator ∧ locator.Locates field

/-- The call gives the field another name. -/
def Renames (field : Field types) : FieldRequest types → Prop
  | .rename _ newName => newName ≠ field.name
  | _ => False

end FieldRequest

section Specification

/-- The calls, with a separate `apply()` for each. -/
def applyEach (schema : Schema types) (allowIncompatibleChanges : Bool)
    (requests : List (FieldRequest types)) : Except Error (Schema types) :=
  requests.foldlM (fun schema request => evolve schema allowIncompatibleChanges [request]) schema

/-- The field after all calls. -/
def changed (field : Field types) (requests : List (FieldRequest types)) : Field types :=
  requests.foldl (fun field request => request.change field) field

@[simp] theorem changed_nil (field : Field types) : changed field [] = field := rfl

@[simp] theorem changed_cons (field : Field types) (request : FieldRequest types)
    (requests : List (FieldRequest types)) :
    changed field (request :: requests) = changed (request.change field) requests := rfl

/-- The fields of a schema that was built. -/
def fieldsOf (result : Except Error (Schema types)) : Option (List (Field types)) :=
  result.toOption.map (·.fields)

/-- What `Schema.of` and `apply` guarantee of the schemas that they return. -/
structure Schema.WellFormed (schema : Schema types) : Prop where
  isBuilt : ∀ field ∈ schema.fields, Field.of field = .ok field
  identified : Schema.Identified schema.fields
  ids : (Field.ids schema.fields).Nodup
  names : Schema.validateFieldNames schema.fields = .ok ()
  atMost : Schema.greatestId schema.fields ≤ schema.maxFieldId

/--
The calls fail or succeed as when they are applied one at a time, with the same fields. If
they succeed, the field has all changes, and the other fields are unchanged.
-/
def LosesNothing (schema : Schema types) (allowIncompatibleChanges : Bool) (index : ℕ)
    (field : Field types) (requests : List (FieldRequest types)) : Prop :=
  fieldsOf (evolve schema allowIncompatibleChanges requests) =
      fieldsOf (applyEach schema allowIncompatibleChanges requests) ∧
    ∀ updated, evolve schema allowIncompatibleChanges requests = .ok updated →
      updated.fields = schema.fields.set index (changed field requests)

/--
The calls leave a default to a field with a past default, and a consistency type to a field
that rows are merged or ordered by.
-/
structure KeepsDefaults (field : Field types) (requests : List (FieldRequest types)) : Prop where
  futureDefault : field.pastDefault.isSome → (changed field requests).futureDefault.isSome
  consistencyType : field.isMergeKey ∨ field.mergeOrder.isSome ∨ field.isEventTime →
    (changed field requests).consistencyType.isSome

/-- The locators match each other, and no call but the last renames the field. -/
structure Continues (schema : Schema types) (field : Field types)
    (requests : List (FieldRequest types)) : Prop where
  sameLocators : ∀ left ∈ requests, ∀ right ∈ requests,
    fieldLocatorsMatch left.fieldLocator right.fieldLocator
  renamesLast : ∀ request ∈ requests.dropLast, ¬request.Renames field
  -- Even without a call, `apply` requires an identifier for the next field.
  hasRoom : requests = [] → schema.maxFieldId + 1 < maxFieldIdExclusive

end Specification

namespace Schema

theorem nodup_names {fields : List (Field types)} (valid : validateFieldNames fields = .ok ()) :
    (fields.map (·.name)).Nodup := by
  unfold validateFieldNames at valid
  split_ifs at valid with isEmpty namesNodup
  have lowered : fields.map (fun field => types.lower field.name) =
      (fields.map (·.name)).map types.lower := by simp
  rw [lowered] at namesNodup
  exact namesNodup.of_map _

/-- `Schema.of` rebuilds valid fields as they are. -/
theorem populateFields_eq {maxFieldId : ℤ} {populated fields : List (Field types)}
    (isBuilt : ∀ field ∈ fields, Field.of field = .ok field) (identified : Identified fields)
    (ids : (Field.ids (populated ++ fields)).Nodup) :
    fields.foldlM (populateField maxFieldId) populated = .ok (populated ++ fields) := by
  induction fields generalizing populated with
  | nil => simp [pure, Except.pure]
  | cons field fields ih =>
      rw [List.forall_mem_cons] at isBuilt
      rcases identified field List.mem_cons_self with ⟨id, isId⟩
      have isNew : populated.any (·.id = some id) = false := by
        rw [List.any_eq_false]
        intro other otherMem sameId
        have nodup := ids
        simp only [Field.ids, List.filterMap_append, List.nodup_append] at nodup
        have otherId : id ∈ populated.filterMap (·.id) :=
          List.mem_filterMap.mpr ⟨other, otherMem, by simpa using sameId⟩
        have thisId : id ∈ (field :: fields).filterMap (·.id) :=
          List.mem_filterMap.mpr ⟨field, List.mem_cons_self, isId⟩
        exact nodup.2.2 id otherId id thisId rfl
      have step : populateField maxFieldId populated field = .ok (populated ++ [field]) := by
        have sameField : { field with id := some id } = field := by
          rw [← isId]
        simp only [populateField, isBuilt.1, isId, bind, Except.bind, Option.getD_some, isNew,
          sameField, Bool.false_eq_true, if_false, pure, Except.pure]
      rw [List.foldlM_cons, step]
      refine (ih isBuilt.2 (fun other otherMem => identified other
        (List.mem_cons_of_mem _ otherMem)) (by simpa using ids)).trans ?_
      simp

theorem of_eq {fields : List (Field types)} {schemaId : ℕ}
    (isBuilt : ∀ field ∈ fields, Field.of field = .ok field) (identified : Identified fields)
    (ids : (Field.ids fields).Nodup) :
    Schema.of ⟨fields, none⟩ (some schemaId) =
      (validateFieldNames fields).map fun _ => ⟨fields, greatestId fields, schemaId⟩ := by
  have populated := @populateFields_eq _ (findMaxFieldId fields) [] fields isBuilt identified ids
  cases valid : validateFieldNames fields with
  | error error => simp [Schema.of, valid, bind, Except.bind, Except.map]
  | ok =>
      simp only [Schema.of, valid, bind, Except.bind]
      rw [populated]
      rfl

end Schema

section Acceptance

namespace FieldRequest

/-- The default value of a call fits the type of the field. -/
def HasValidDefault (field : Field types) : FieldRequest types → Prop
  | .updateFutureDefault _ futureDefault => field.validateDefault futureDefault = .ok ()
  | _ => True

/-- The change is compatible. -/
def IsAllowed (field : Field types) (request : FieldRequest types) : Prop :=
  types.isCompatible field.type (request.change field).type = true ∧
    match request with
    | .updateConsistencyType _ consistencyType =>
        validateConsistencyType field.withDefaults.consistencyType consistencyType = .ok ()
    | _ => True

/-- The call is accepted and applied to the field. -/
structure IsAccepted (allowIncompatibleChanges : Bool) (field : Field types)
    (request : FieldRequest types) : Prop where
  hasValidDefault : request.HasValidDefault field
  isAllowed : allowIncompatibleChanges = true ∨ request.IsAllowed field
  isValid : (request.change field).withDefaults.validate = .ok ()

/-- Defaults that are filled in before a change are filled in after it as well. -/
theorem withDefaults_change (request : FieldRequest types) (field : Field types) :
    (request.change field.withDefaults).withDefaults = (request.change field).withDefaults := by
  cases request with
  | rename | updateType | updateDoc | updateNullability | add | remove =>
      rcases field with ⟨_, _, _, _, isMergeKey, mergeOrder, isEventTime, _, pastDefault,
        futureDefault, consistencyType⟩
      cases futureDefault <;> cases pastDefault <;> cases consistencyType <;>
        cases isMergeKey <;> cases mergeOrder <;> cases isEventTime <;> rfl
  | updateConsistencyType _ newType =>
      rcases field with ⟨_, _, _, _, _, _, _, _, pastDefault, futureDefault, _⟩
      cases futureDefault <;> cases pastDefault <;> rfl
  | updateFutureDefault _ newDefault =>
      rcases field with ⟨_, _, _, _, isMergeKey, mergeOrder, isEventTime, _, _, _,
        consistencyType⟩
      cases consistencyType <;> cases isMergeKey <;> cases mergeOrder <;> cases isEventTime <;> rfl

theorem change_id (request : FieldRequest types) (field : Field types) :
    (request.change field).id = field.id := by
  cases request <;> rfl

theorem change_name_of_not_renames {base field : Field types} {request : FieldRequest types}
    (notRenames : ¬request.Renames base) (sameName : field.name = base.name) :
    (request.change field).name = base.name := by
  cases request with
  | rename locator newName => exact not_not.mp notRenames
  | _ => exact sameName

end FieldRequest

variable {update : SchemaUpdate types} {field : Field types} {request : FieldRequest types}

/-- The validation of fields that agree in what an update must not change. -/
theorem validateUpdateField_iff {oldField newField : Field types}
    (mergeKey : oldField.isMergeKey = newField.isMergeKey)
    (mergeOrder : oldField.mergeOrder = newField.mergeOrder)
    (eventTime : oldField.isEventTime = newField.isEventTime)
    (pastDefault : oldField.pastDefault = newField.pastDefault)
    (id : oldField.id = newField.id) (nullable : oldField.nullable = newField.nullable) :
    update.validateUpdateField oldField newField = .ok () ↔
      types.isCompatible oldField.type newField.type = true ∧
        validateConsistencyType oldField.consistencyType newField.consistencyType = .ok () := by
  have keepsNullable : ¬(newField.nullable = true ∧ ¬newField.nullable = true ∧
      ¬(newField.pastDefault.isSome = true ∧ newField.futureDefault.isSome = true)) :=
    fun both => both.2.1 both.1
  unfold validateUpdateField
  rw [mergeKey, mergeOrder, eventTime, pastDefault, id, nullable]
  simp only [ne_eq, not_true_eq_false, false_and, if_false, keepsNullable]
  cases validateConsistencyType oldField.consistencyType newField.consistencyType with
  | error error => simp [bind, Except.bind]
  | ok =>
      by_cases compatible : types.isCompatible oldField.type newField.type = true
      · simp [compatible, bind, Except.bind, pure, Except.pure]
      · simp [compatible, bind, Except.bind, throw, throwThe, MonadExceptOf.throw]

theorem validateConsistencyType_withDefaults {copy : Field types}
    (sameField : copy = field ∨ copy = field.withDefaults) :
    validateConsistencyType field.withDefaults.consistencyType copy.consistencyType = .ok () := by
  rcases sameField with rfl | rfl
  · cases isType : copy.consistencyType with
    | none => cases copy.withDefaults.consistencyType <;> simp [validateConsistencyType]
    | some consistencyType =>
        have kept : copy.withDefaults.consistencyType = some consistencyType := by
          simp [Field.withDefaults, isType]
        simp [validateConsistencyType, kept]
  · simp [validateConsistencyType]

/-- The validation of a change, of a field with or without the defaults filled in. -/
theorem validateUpdateField_change (isCumulative : request.IsCumulative) {copy : Field types}
    (sameField : copy = field ∨ copy = field.withDefaults) :
    update.validateUpdateField field.withDefaults (request.change copy) = .ok () ↔
      request.IsAllowed field := by
  have consistency := validateConsistencyType_withDefaults sameField
  have sameType : (request.change copy).type = (request.change field).type := by
    rcases sameField with rfl | rfl <;> cases request <;> rfl
  unfold FieldRequest.IsAllowed
  rw [validateUpdateField_iff, sameType]
  · apply and_congr_right
    intro _
    cases request with
    | updateConsistencyType => exact Iff.rfl
    | updateNullability | add | remove => cases isCumulative
    | _ => exact iff_of_true consistency trivial
  all_goals
    rcases sameField with rfl | rfl <;> cases request <;> first | rfl | cases isCumulative

theorem of_eq_ok_iff {built : Field types} :
    Field.of field = .ok built ↔
      field.withDefaults.validate = .ok () ∧ built = field.withDefaults := by
  unfold Field.of
  cases field.withDefaults.validate with
  | error error => simp [Except.map]
  | ok => simp [Except.map, eq_comm]

/-- A property of every call, with the field after the calls before it. -/
def ForEachCall (property : Field types → FieldRequest types → Prop) :
    Field types → List (FieldRequest types) → Prop
  | _, [] => True
  | field, request :: requests =>
      property field request ∧ ForEachCall property (request.change field) requests

theorem forEachCall_and {left right : Field types → FieldRequest types → Prop}
    (requests : List (FieldRequest types)) (field : Field types) :
    ForEachCall (fun field request => left field request ∧ right field request) field requests ↔
      ForEachCall left field requests ∧ ForEachCall right field requests := by
  induction requests generalizing field with
  | nil => simp [ForEachCall]
  | cons request requests ih =>
      simp only [ForEachCall, ih]
      tauto

/-- The locator of a call that has one. -/
def FieldRequest.locator (request : FieldRequest types) : FieldLocator :=
  request.fieldLocator.getD (.path [])

/-- A call that changes a field. -/
theorem request_eq_ok_iff {next : SchemaUpdate types} (isCumulative : request.IsCumulative)
    {existing : Field types} (isExisting : update.getExistingField request.locator = .ok existing) :
    update.request request = .ok next ↔ request.HasValidDefault existing ∧
      next = { update with operations :=
        update.operations ++ [.update request.locator (request.change existing)] } := by
  have changes : ∀ {locator : FieldLocator} {change : Field types → Field types},
      update.getExistingField locator = .ok existing →
      (update.updateField locator change = .ok next ↔
        next = { update with operations :=
          update.operations ++ [.update locator (change existing)] }) := by
    intro locator change isExisting
    simp [updateField, isExisting, bind, Except.bind, pure, Except.pure, eq_comm]
  cases request with
  | add | remove | updateNullability => cases isCumulative
  | updateFutureDefault locator futureDefault =>
      have isExisting : update.getExistingField locator = .ok existing := isExisting
      have changed := @changes locator (fun field =>
        { field with futureDefault := futureDefault }) isExisting
      simp only [SchemaUpdate.request, updateFieldFutureDefault, isExisting, bind, Except.bind]
      cases valid : existing.validateDefault futureDefault with
      | error error => simp [FieldRequest.HasValidDefault, valid]
      | ok => exact changed.trans (and_iff_right valid).symm
  | rename | updateType | updateDoc | updateConsistencyType =>
      exact (changes isExisting).trans (and_iff_right trivial).symm

/-- The field as the pending operations leave it. -/
def Pending (field : Field types) (operations : List (SchemaUpdateOperation types))
    (copy : Field types) : Prop :=
  match operations.getLast? with
  | none => copy = field
  | some operation => operation.field = some copy

theorem getExistingField_eq {locator : FieldLocator} {copy : Field types}
    (isFound : update.baseSchema.fields.find? (·.name = update.getFieldName locator) = some field)
    (allMatch : ∀ operation ∈ update.operations,
      fieldLocatorsMatch operation.fieldLocator (some locator))
    (pending : Pending field update.operations copy) :
    update.getExistingField locator = .ok copy := by
  have matching : update.operations.filter (fun operation =>
      fieldLocatorsMatch operation.fieldLocator (some locator)) = update.operations :=
    List.filter_eq_self.mpr allMatch
  unfold getExistingField
  rw [isFound]
  simp only [matching]
  unfold Pending at pending
  cases isLast : update.operations.getLast? with
  | none =>
      rw [isLast] at pending
      simp only [pending]
  | some operation =>
      rw [isLast] at pending
      simp only [pending]

/-- The operations that calls append, from a copy of the field on. -/
def copies : Field types → List (FieldRequest types) → List (SchemaUpdateOperation types)
  | _, [] => []
  | copy, request :: requests =>
      .update request.locator (request.change copy) :: copies (request.change copy) requests

/-- Matching calls continue with the copies of each other. -/
theorem requests_eq_ok_iff {next : SchemaUpdate types} {requests : List (FieldRequest types)}
    {copy : Field types}
    (areCumulative : ∀ request ∈ requests, request.IsCumulative)
    (areFound : ∀ request ∈ requests, update.baseSchema.fields.find?
      (·.name = update.getFieldName request.locator) = some field)
    (allMatch : ∀ request ∈ requests, ∀ operation ∈ update.operations,
      fieldLocatorsMatch operation.fieldLocator (some request.locator))
    (matchEach : ∀ left ∈ requests, ∀ right ∈ requests,
      fieldLocatorsMatch (some left.locator) (some right.locator))
    (pending : Pending field update.operations copy) :
    requests.foldlM SchemaUpdate.request update = .ok next ↔
      ForEachCall (fun field request => request.HasValidDefault field) copy requests ∧
        next = { update with operations := update.operations ++ copies copy requests } := by
  induction requests generalizing update copy with
  | nil => simp [pure, Except.pure, ForEachCall, copies, eq_comm]
  | cons request requests ih =>
      rw [List.forall_mem_cons] at areCumulative areFound allMatch
      have step := @request_eq_ok_iff _ update request
      have isExisting := getExistingField_eq areFound.1 allMatch.1 pending
      rw [List.foldlM_cons, except_bind_eq_ok]
      simp only [request_eq_ok_iff areCumulative.1 isExisting, ForEachCall, and_assoc,
        exists_and_left, exists_eq_left]
      apply and_congr_right
      intro _
      have rest := @ih { update with operations :=
        update.operations ++ [.update request.locator (request.change copy)] }
        (request.change copy) areCumulative.2 areFound.2 ?_ ?_ ?_
      · simpa [copies] using rest
      · intro later laterMem operation operationMem
        rcases List.mem_append.mp operationMem with isOld | isNew
        · exact allMatch.2 later laterMem operation isOld
        · rw [List.mem_singleton] at isNew
          subst isNew
          exact matchEach request List.mem_cons_self later (List.mem_cons_of_mem _ laterMem)
      · intro left leftMem right rightMem
        exact matchEach left (List.mem_cons_of_mem _ leftMem) right
          (List.mem_cons_of_mem _ rightMem)
      · simp [Pending, SchemaUpdateOperation.field]

/-- The application of an update to a field that is found. -/
theorem applyUpdateField_eq_ok_iff {state next : ApplyState types} {locator : FieldLocator}
    {oldField updatedField : Field types} {index : ℕ}
    (isIndex : state.fieldNameToIndex (update.getFieldName locator) = some index)
    (isOld : state.fields[index]? = some oldField) :
    update.applyUpdateField state locator updatedField = .ok next ↔
      (update.unlessAllowed (update.validateUpdateField oldField updatedField) = .ok () ∧
        updatedField.withDefaults.validate = .ok ()) ∧
      next = { state with
        fields := state.fields.set index updatedField.withDefaults
        fieldNameToIndex :=
          if update.getFieldName locator = updatedField.name then state.fieldNameToIndex
          else Function.update (Function.update state.fieldNameToIndex
            (update.getFieldName locator) none) updatedField.name (some index) } := by
  unfold applyUpdateField
  simp only [isIndex, isOld, except_bind_eq_ok, of_eq_ok_iff, and_assoc, exists_and_left,
    exists_eq_left]
  constructor
  · rintro ⟨_, isValid, isBuilt, isNext⟩
    cases isNext
    exact ⟨isValid, isBuilt, rfl⟩
  · rintro ⟨isValid, isBuilt, rfl⟩
    exact ⟨(), isValid, isBuilt, rfl⟩

/-- What applying the copy of a call requires. -/
def IsApplicable (allowIncompatibleChanges : Bool) (field : Field types)
    (request : FieldRequest types) : Prop :=
  (allowIncompatibleChanges = true ∨ request.IsAllowed field) ∧
    (request.change field).withDefaults.validate = .ok ()

/-- Copies of one field are applied in its place, if only the last one renames it. -/
theorem copies_applied_iff {base : Field types} {index : ℕ} {requests : List (FieldRequest types)}
    {copy : Field types} {state : ApplyState types} {fields : List (Field types)}
    (areCumulative : ∀ request ∈ requests, request.IsCumulative)
    (renamesLast : ∀ request ∈ requests.dropLast, ¬request.Renames base)
    (areNamed : ∀ request ∈ requests, update.getFieldName request.locator = base.name)
    (sameName : copy.name = base.name)
    (isIndex : state.fieldNameToIndex base.name = some index)
    (isOld : state.fields[index]? = some copy.withDefaults) :
    (∃ final, (copies copy requests).foldlM update.applyOperation state = .ok final ∧
        final.fields = fields) ↔
      ForEachCall (IsApplicable update.allowIncompatibleChanges) copy requests ∧
        fields = state.fields.set index
          (requests.foldl (fun field request => request.change field) copy).withDefaults := by
  induction requests generalizing copy state with
  | nil =>
      have same : state.fields.set index copy.withDefaults = state.fields := by
        rcases List.getElem?_eq_some_iff.mp isOld with ⟨inBounds, isOld⟩
        rw [← isOld, List.set_getElem_self]
      constructor
      · rintro ⟨final, isFinal, rfl⟩
        cases isFinal
        exact ⟨trivial, same.symm⟩
      · rintro ⟨-, rfl⟩
        exact ⟨state, rfl, same.symm⟩
  | cons request requests ih =>
      rw [List.forall_mem_cons] at areCumulative areNamed
      have isRequest : state.fieldNameToIndex (update.getFieldName request.locator) =
          some index := by
        rw [areNamed.1, isIndex]
      have validated : update.unlessAllowed (update.validateUpdateField copy.withDefaults
          (request.change copy)) = .ok () ↔
            update.allowIncompatibleChanges = true ∨ request.IsAllowed copy := by
        rw [← @validateUpdateField_change _ update copy request areCumulative.1 copy (.inl rfl),
          unlessAllowed]
        cases update.allowIncompatibleChanges <;> simp
      have step := fun next => @applyUpdateField_eq_ok_iff _ update _ next request.locator _
        (request.change copy) _ isRequest isOld
      simp only [validated] at step
      have inBounds := (List.getElem?_eq_some_iff.mp isOld).1
      simp only [copies, List.foldlM_cons, except_bind_eq_ok, applyOperation, step, ForEachCall,
        List.foldl_cons]
      cases requests with
      | nil =>
          constructor
          · rintro ⟨final, ⟨next, ⟨isApplicable, isNext⟩, isFinal⟩, rfl⟩
            cases isFinal
            exact ⟨⟨isApplicable, trivial⟩, by rw [isNext]; rfl⟩
          · rintro ⟨⟨isApplicable, -⟩, rfl⟩
            exact ⟨_, ⟨_, ⟨isApplicable, rfl⟩, rfl⟩, rfl⟩
      | cons later requests =>
          have notRenames := renamesLast request (by simp)
          have laterName := FieldRequest.change_name_of_not_renames notRenames sameName
          have keepsName : update.getFieldName request.locator = (request.change copy).name :=
            areNamed.1.trans laterName.symm
          have rest := @ih (request.change copy)
            { state with fields := state.fields.set index (request.change copy).withDefaults }
            areCumulative.2 (fun other otherMem => renamesLast other (by
              rw [List.dropLast_cons_of_ne_nil (List.cons_ne_nil _ _)]
              exact List.mem_cons_of_mem _ otherMem)) areNamed.2 laterName isIndex
            (List.getElem?_set_self inBounds)
          simp only [List.set_set] at rest
          simp only [if_pos keepsName]
          rw [and_assoc, ← rest]
          constructor
          · rintro ⟨final, ⟨next, ⟨isApplicable, rfl⟩, isFinal⟩, isFields⟩
            exact ⟨isApplicable, final, isFinal, isFields⟩
          · rintro ⟨isApplicable, final, isFinal, isFields⟩
            exact ⟨final, ⟨_, ⟨isApplicable, rfl⟩, isFinal⟩, isFields⟩

end Acceptance

section Replacement

variable {schema : Schema types} {field updatedField : Field types} {index : ℕ}

theorem map_set_eq {Value : Type} (read : Field types → Value) {fields : List (Field types)}
    (isField : fields[index]? = some field) (same : read updatedField = read field) :
    (fields.set index updatedField).map read = fields.map read := by
  have isRead : (fields.map read)[index]? = some (read field) := by simp [isField]
  rcases List.getElem?_eq_some_iff.mp isRead with ⟨inBounds, isRead⟩
  rw [List.map_set, same, ← isRead, List.set_getElem_self]

theorem ids_set {fields : List (Field types)} (isField : fields[index]? = some field)
    (sameId : updatedField.id = field.id) :
    Field.ids (fields.set index updatedField) = Field.ids fields := by
  have ids_eq : ∀ fields : List (Field types), Field.ids fields =
      (fields.map (·.id)).filterMap id := by
    intro fields
    simp [Field.ids, List.filterMap_map]
  rw [ids_eq, ids_eq, map_set_eq _ isField sameId]

theorem greatestId_set {fields : List (Field types)} (isField : fields[index]? = some field)
    (sameId : updatedField.id = field.id) :
    Schema.greatestId (fields.set index updatedField) = Schema.greatestId fields := by
  have sameIds := ids_set isField sameId
  unfold Field.ids at sameIds
  unfold Schema.greatestId
  rw [sameIds]

theorem validateFieldNames_set {fields : List (Field types)} (isField : fields[index]? = some field)
    (sameName : updatedField.name = field.name) :
    Schema.validateFieldNames (fields.set index updatedField) =
      Schema.validateFieldNames fields := by
  unfold Schema.validateFieldNames
  rw [map_set_eq (fun field => types.lower field.name) isField (by rw [sameName])]
  simp

/-- A schema stays well formed when a field is replaced by one with its identifier. -/
theorem Schema.WellFormed.set (wellFormed : schema.WellFormed)
    (isField : schema.fields[index]? = some field) (sameId : updatedField.id = field.id)
    (isBuilt : Field.of updatedField = .ok updatedField)
    (names : Schema.validateFieldNames (schema.fields.set index updatedField) = .ok ())
    (schemaId : ℕ) :
    Schema.WellFormed ⟨schema.fields.set index updatedField, schema.maxFieldId, schemaId⟩ where
  isBuilt := by
    intro other otherMem
    rcases List.mem_or_eq_of_mem_set otherMem with isOld | rfl
    · exact wellFormed.isBuilt other isOld
    · exact isBuilt
  identified := by
    intro other otherMem
    rcases List.mem_or_eq_of_mem_set otherMem with isOld | rfl
    · exact wellFormed.identified other isOld
    · rw [sameId]
      exact wellFormed.identified field (List.mem_of_getElem? isField)
  ids := by
    rw [ids_set isField sameId]
    exact wellFormed.ids
  names := names
  atMost := by
    rw [greatestId_set isField sameId]
    exact wellFormed.atMost

/-- The replaced schema is built as it is. -/
theorem Schema.WellFormed.of_set (wellFormed : schema.WellFormed)
    (isField : schema.fields[index]? = some field) (sameId : updatedField.id = field.id)
    (isBuilt : Field.of updatedField = .ok updatedField) (schemaId : ℕ) :
    Schema.of ⟨schema.fields.set index updatedField, none⟩ (some schemaId) =
      (Schema.validateFieldNames (schema.fields.set index updatedField)).map fun _ =>
        ⟨schema.fields.set index updatedField, Schema.greatestId schema.fields, schemaId⟩ := by
  rw [← greatestId_set isField sameId]
  apply Schema.of_eq
  · intro other otherMem
    rcases List.mem_or_eq_of_mem_set otherMem with isOld | rfl
    · exact wellFormed.isBuilt other isOld
    · exact isBuilt
  · intro other otherMem
    rcases List.mem_or_eq_of_mem_set otherMem with isOld | rfl
    · exact wellFormed.identified other isOld
    · rw [sameId]
      exact wellFormed.identified field (List.mem_of_getElem? isField)
  · rw [ids_set isField sameId]
    exact wellFormed.ids

theorem Schema.WellFormed.find_name (wellFormed : schema.WellFormed)
    (isField : schema.fields[index]? = some field) :
    schema.fields.find? (·.name = field.name) = some field := by
  have nodup := Schema.nodup_names wellFormed.names
  have isMember := List.mem_of_getElem? isField
  cases isFound : schema.fields.find? (·.name = field.name) with
  | none =>
      have notNamed := List.find?_eq_none.mp isFound field isMember
      simp at notNamed
  | some other =>
      have sameName : other.name = field.name := by
        simpa using List.find?_some isFound
      rw [List.inj_on_of_nodup_map nodup (List.mem_of_find?_eq_some isFound) isMember sameName]

theorem Schema.Identified.map_id {fields : List (Field types)}
    (identified : Schema.Identified fields) : fields.map (·.id) = (Field.ids fields).map some := by
  induction fields with
  | nil => rfl
  | cons field fields ih =>
      rcases identified field List.mem_cons_self with ⟨id, isId⟩
      have rest := ih fun other otherMem => identified other (List.mem_cons_of_mem _ otherMem)
      simp only [List.map_cons, rest, Field.ids, List.filterMap_cons, isId]

theorem Schema.WellFormed.find_id (wellFormed : schema.WellFormed)
    (isField : schema.fields[index]? = some field) {id : ℤ} (isId : field.id = some id) :
    schema.fields.find? (·.id = some id) = some field := by
  have isMember := List.mem_of_getElem? isField
  cases isFound : schema.fields.find? (·.id = some id) with
  | none =>
      have notIdentified := List.find?_eq_none.mp isFound field isMember
      simp [isId] at notIdentified
  | some other =>
      have otherId : other.id = some id := by
        simpa using List.find?_some isFound
      have nodup : (schema.fields.map (·.id)).Nodup := by
        rw [wellFormed.identified.map_id]
        exact wellFormed.ids.map (Option.some_injective _)
      rw [List.inj_on_of_nodup_map nodup (List.mem_of_find?_eq_some isFound) isMember
        (otherId.trans isId.symm)]

theorem nameToIndex_eq {fields : List (Field types)} (nodup : (fields.map (·.name)).Nodup)
    (isField : fields[index]? = some field) :
    nameToIndex fields field.name = some index := by
  induction fields generalizing index with
  | nil => simp at isField
  | cons first fields ih =>
      rw [List.map_cons, List.nodup_cons] at nodup
      cases index with
      | zero =>
          obtain rfl : first = field := by simpa using isField
          have notLater : nameToIndex fields first.name = none := by
            cases leads : nameToIndex fields first.name with
            | none => rfl
            | some later =>
                rcases nameToIndex_eq_some leads with ⟨other, isOther, sameName⟩
                have isLater : other.name ∈ fields.map (·.name) :=
                  List.mem_map_of_mem (List.mem_of_getElem? isOther)
                rw [sameName] at isLater
                exact absurd isLater nodup.1
          simp [nameToIndex, notLater]
      | succ index =>
          have later := ih nodup.2 (by simpa using isField)
          simp [nameToIndex, later]

end Replacement

section Run

variable {schema : Schema types} {field : Field types} {index : ℕ}
  {allowIncompatibleChanges : Bool} {requests : List (FieldRequest types)}

theorem changed_id : (changed field requests).id = field.id := by
  induction requests generalizing field with
  | nil => rfl
  | cons request requests ih => rw [changed_cons, ih, FieldRequest.change_id]

theorem changed_isBuilt (isBuilt : Field.of field = .ok field)
    (areApplicable : ForEachCall (IsApplicable allowIncompatibleChanges) field requests) :
    (changed field requests).withDefaults.validate = .ok () := by
  have isValid := (of_eq_ok_iff.mp isBuilt).1
  clear isBuilt
  induction requests generalizing field with
  | nil => exact isValid
  | cons request requests ih => exact ih areApplicable.2 areApplicable.1.2

theorem FieldRequest.locator_eq {request : FieldRequest types} {locator : FieldLocator}
    (isLocator : request.fieldLocator = some locator) : request.locator = locator := by
  simp [FieldRequest.locator, isLocator]

theorem FieldRequest.Addresses.fieldLocator_eq {request : FieldRequest types}
    (addresses : request.Addresses field) : request.fieldLocator = some request.locator := by
  rcases addresses with ⟨locator, isLocator, -⟩
  rw [locator_eq isLocator, isLocator]

theorem FieldLocator.Locates.getFieldName_eq (wellFormed : schema.WellFormed)
    (isField : schema.fields[index]? = some field) {locator : FieldLocator}
    (locates : locator.Locates field) {update : SchemaUpdate types}
    (isBase : update.baseSchema = schema) : update.getFieldName locator = field.name := by
  cases locator with
  | name => exact locates
  | path =>
      cases locates
      rfl
  | id => rw [getFieldName, isBase, wellFormed.find_id isField locates]

theorem FieldRequest.Addresses.getFieldName_eq (wellFormed : schema.WellFormed)
    (isField : schema.fields[index]? = some field) {request : FieldRequest types}
    (addresses : request.Addresses field) {update : SchemaUpdate types}
    (isBase : update.baseSchema = schema) : update.getFieldName request.locator = field.name := by
  rcases addresses with ⟨locator, isLocator, locates⟩
  rw [locator_eq isLocator]
  exact locates.getFieldName_eq wellFormed isField isBase

/-- Copies of a field do not conflict. -/
theorem hasConflict_copies (copy : Field types) :
    SchemaUpdate.hasConflict ⟨schema, allowIncompatibleChanges, copies copy requests⟩ = false := by
  have isUpdate : ∀ operation ∈ copies copy requests, operation.kind = .update := by
    induction requests generalizing copy with
    | nil => simp [copies]
    | cons request requests ih =>
        intro operation operationMem
        rcases List.mem_cons.mp operationMem with rfl | isLater
        · rfl
        · exact ih _ operation isLater
  unfold SchemaUpdate.hasConflict
  rw [List.any_eq_false]
  intro left leftMem
  rw [Bool.not_eq_true, List.any_eq_false]
  intro right rightMem
  simp [isUpdate left leftMem, isUpdate right rightMem]

theorem forEachCall_isAccepted :
    ForEachCall (FieldRequest.IsAccepted allowIncompatibleChanges) field requests ↔
      ForEachCall (fun field request => request.HasValidDefault field) field requests ∧
        ForEachCall (IsApplicable allowIncompatibleChanges) field requests := by
  rw [← forEachCall_and]
  have same : FieldRequest.IsAccepted allowIncompatibleChanges =
      fun (field : Field types) request => request.HasValidDefault field ∧
        IsApplicable allowIncompatibleChanges field request := by
    funext field request
    apply propext
    constructor
    · intro isAccepted
      exact ⟨isAccepted.hasValidDefault, isAccepted.isAllowed, isAccepted.isValid⟩
    · rintro ⟨hasValidDefault, isAllowed, isValid⟩
      exact ⟨hasValidDefault, isAllowed, isValid⟩
  rw [same]

/-- What `apply` does when no operations conflict. -/
theorem apply_eq_ok_iff {update : SchemaUpdate types} (noConflict : update.hasConflict = false)
    {updated : Schema types} :
    update.apply = .ok updated ↔
      update.baseSchema.maxFieldId + 1 < maxFieldIdExclusive ∧
      ∃ fields, (∃ final, update.operations.foldlM update.applyOperation
        ⟨update.baseSchema.fields, nameToIndex update.baseSchema.fields,
          update.baseSchema.maxFieldId + 1⟩ = .ok final ∧ final.fields = fields) ∧
        ∃ newSchema, Schema.of ⟨fields, none⟩ (some (update.baseSchema.id + 1)) = .ok newSchema ∧
          updated = { newSchema with
            maxFieldId := max newSchema.maxFieldId update.baseSchema.maxFieldId } := by
  constructor
  · intro isUpdated
    have hasRoom : update.baseSchema.maxFieldId + 1 < maxFieldIdExclusive := by
      by_contra noRoom
      simp [apply, not_lt.mp noRoom, throw, throwThe, MonadExceptOf.throw] at isUpdated
    rcases exists_of_apply isUpdated with ⟨final, isFinal, newSchema, isSchema, isResult⟩
    exact ⟨hasRoom, final.fields, ⟨final, isFinal, rfl⟩, newSchema, isSchema, isResult⟩
  · rintro ⟨hasRoom, fields, ⟨final, isFinal, rfl⟩, newSchema, isSchema, rfl⟩
    simp [apply, not_le.mpr hasRoom, noConflict, isFinal, isSchema, bind, Except.bind, pure,
      Except.pure]

/-- Calls that continue with each other, in one update. -/
theorem evolve_eq_ok_iff (wellFormed : schema.WellFormed)
    (isField : schema.fields[index]? = some field)
    (areCumulative : ∀ request ∈ requests, request.IsCumulative)
    (addresses : ∀ request ∈ requests, request.Addresses field)
    (continues : Continues schema field requests) {updated : Schema types} :
    evolve schema allowIncompatibleChanges requests = .ok updated ↔
      schema.maxFieldId + 1 < maxFieldIdExclusive ∧
      ForEachCall (FieldRequest.IsAccepted allowIncompatibleChanges) field requests ∧
      Schema.validateFieldNames (schema.fields.set index (changed field requests).withDefaults) =
        .ok () ∧
      updated = ⟨schema.fields.set index (changed field requests).withDefaults,
        schema.maxFieldId, schema.id + 1⟩ := by
  have isBuilt := wellFormed.isBuilt field (List.mem_of_getElem? isField)
  have isDefault : field = field.withDefaults := (of_eq_ok_iff.mp isBuilt).2
  have areNamed : ∀ request ∈ requests, ∀ update : SchemaUpdate types,
      update.baseSchema = schema → update.getFieldName request.locator = field.name :=
    fun request requestMem update isBase =>
      (addresses request requestMem).getFieldName_eq wellFormed isField isBase
  have called := fun next => @requests_eq_ok_iff types
    ⟨schema, allowIncompatibleChanges, []⟩ field next requests field areCumulative
    (fun request requestMem => by
      rw [areNamed request requestMem _ rfl]
      exact wellFormed.find_name isField) (by simp)
    (fun left leftMem right rightMem => by
      rw [← (addresses left leftMem).fieldLocator_eq, ← (addresses right rightMem).fieldLocator_eq]
      exact continues.sameLocators left leftMem right rightMem) rfl
  have noConflict := @hasConflict_copies types schema allowIncompatibleChanges requests field
  have applied := fun fields => @copies_applied_iff types
    ⟨schema, allowIncompatibleChanges, copies field requests⟩ field index requests field
    ⟨schema.fields, nameToIndex schema.fields, schema.maxFieldId + 1⟩ fields areCumulative
    continues.renamesLast (fun request requestMem => areNamed request requestMem _ rfl) rfl
    (nameToIndex_eq (Schema.nodup_names wellFormed.names) isField) (by rwa [← isDefault])
  unfold evolve
  simp only [except_bind_eq_ok, called, List.nil_append, and_assoc, exists_and_left,
    exists_eq_left, forEachCall_isAccepted]
  rw [apply_eq_ok_iff noConflict]
  simp only [applied, and_assoc, exists_and_left, exists_eq_left]
  have built : ForEachCall (IsApplicable allowIncompatibleChanges) field requests →
      Schema.of ⟨schema.fields.set index (changed field requests).withDefaults, none⟩
          (some (schema.id + 1)) =
        (Schema.validateFieldNames
          (schema.fields.set index (changed field requests).withDefaults)).map fun _ =>
            ⟨schema.fields.set index (changed field requests).withDefaults,
              Schema.greatestId schema.fields, schema.id + 1⟩ := by
    intro areApplicable
    have sameId : (changed field requests).withDefaults.id = field.id := changed_id
    apply wellFormed.of_set isField sameId
    apply of_eq_ok_iff.mpr
    simp [changed_isBuilt isBuilt areApplicable]
  constructor
  · rintro ⟨validDefaults, hasRoom, areApplicable, newSchema, isSchema, rfl⟩
    have isSchema := (built areApplicable).symm.trans isSchema
    cases names : Schema.validateFieldNames
        (schema.fields.set index (changed field requests).withDefaults) with
    | error error =>
        rw [names] at isSchema
        cases isSchema
    | ok =>
        rw [names] at isSchema
        cases isSchema
        exact ⟨hasRoom, validDefaults, areApplicable, rfl, by simp [max_eq_right wellFormed.atMost]⟩
  · rintro ⟨hasRoom, validDefaults, areApplicable, names, rfl⟩
    have isSchema := built areApplicable
    rw [names] at isSchema
    exact ⟨validDefaults, hasRoom, areApplicable, _, isSchema,
      by simp [max_eq_right wellFormed.atMost]⟩

/-- Fields that are equal once the defaults are filled in are equal to each call. -/
theorem isAccepted_congr {left right : Field types} (same : left.withDefaults = right.withDefaults)
    (request : FieldRequest types) :
    request.IsAccepted allowIncompatibleChanges left ↔
      request.IsAccepted allowIncompatibleChanges right := by
  have type : left.type = right.type := congrArg (·.type) same
  have changeType : (request.change left).type = (request.change right).type := by
    cases request <;> simp [FieldRequest.change, type]
  have isChanged : (request.change left).withDefaults = (request.change right).withDefaults := by
    rw [← FieldRequest.withDefaults_change, same, FieldRequest.withDefaults_change]
  have hasValidDefault : request.HasValidDefault left ↔ request.HasValidDefault right := by
    cases request <;> simp [FieldRequest.HasValidDefault, Field.validateDefault, type]
  have isAllowed : request.IsAllowed left ↔ request.IsAllowed right := by
    unfold FieldRequest.IsAllowed
    rw [type, changeType, same]
  constructor
  · intro isAccepted
    exact ⟨hasValidDefault.mp isAccepted.hasValidDefault,
      isAccepted.isAllowed.imp_right isAllowed.mp, isChanged ▸ isAccepted.isValid⟩
  · intro isAccepted
    exact ⟨hasValidDefault.mpr isAccepted.hasValidDefault,
      isAccepted.isAllowed.imp_right isAllowed.mpr, isChanged ▸ isAccepted.isValid⟩

theorem changed_congr {left right : Field types} (same : left.withDefaults = right.withDefaults) :
    (changed left requests).withDefaults = (changed right requests).withDefaults := by
  induction requests generalizing left right with
  | nil => exact same
  | cons request requests ih =>
      apply ih
      rw [← FieldRequest.withDefaults_change, same, FieldRequest.withDefaults_change]

theorem areAccepted_congr {left right : Field types}
    (same : left.withDefaults = right.withDefaults) :
    ForEachCall (FieldRequest.IsAccepted allowIncompatibleChanges) left requests ↔
      ForEachCall (FieldRequest.IsAccepted allowIncompatibleChanges) right requests := by
  induction requests generalizing left right with
  | nil => exact Iff.rfl
  | cons request requests ih =>
      apply and_congr (isAccepted_congr same request)
      apply ih
      rw [← FieldRequest.withDefaults_change, same, FieldRequest.withDefaults_change]

theorem applyEach_cons (request : FieldRequest types) :
    applyEach schema allowIncompatibleChanges (request :: requests) =
      evolve schema allowIncompatibleChanges [request] >>= fun next =>
        applyEach next allowIncompatibleChanges requests := by
  unfold applyEach
  rw [List.foldlM_cons]

theorem FieldRequest.Addresses.congr {request : FieldRequest types} {other : Field types}
    (addresses : request.Addresses field) (sameName : field.name = other.name)
    (sameId : field.id = other.id) : request.Addresses other := by
  rcases addresses with ⟨locator, isLocator, locates⟩
  refine ⟨locator, isLocator, ?_⟩
  cases locator with
  | name => exact locates.trans sameName
  | path => exact locates.trans (by rw [sameName])
  | id => exact sameId.symm.trans locates

theorem FieldRequest.renames_congr {request : FieldRequest types} {other : Field types}
    (sameName : field.name = other.name) : request.Renames field ↔ request.Renames other := by
  cases request <;> simp [Renames, sameName]

theorem fieldLocatorsMatch_self (locator : Option FieldLocator) :
    fieldLocatorsMatch locator locator := by
  rcases locator with _ | (_ | _ | _) <;> simp [fieldLocatorsMatch]

theorem renamesLast_tail {request later : FieldRequest types} {other : Field types}
    (renamesLast : ∀ call ∈ (request :: later :: requests).dropLast, ¬call.Renames field)
    (sameName : other.name = field.name) :
    ∀ call ∈ (later :: requests).dropLast, ¬call.Renames other := by
  intro call callMem
  rw [FieldRequest.renames_congr sameName]
  apply renamesLast
  rw [List.dropLast_cons_of_ne_nil (List.cons_ne_nil _ _)]
  exact List.mem_cons_of_mem _ callMem

/-- Calls of which at most the last one renames the field, in one update each. -/
theorem applyEach_eq_ok_iff (wellFormed : schema.WellFormed)
    (isField : schema.fields[index]? = some field) (nonempty : requests ≠ [])
    (areCumulative : ∀ request ∈ requests, request.IsCumulative)
    (addresses : ∀ request ∈ requests, request.Addresses field)
    (renamesLast : ∀ request ∈ requests.dropLast, ¬request.Renames field)
    {fields : List (Field types)} :
    (∃ updated, applyEach schema allowIncompatibleChanges requests = .ok updated ∧
        updated.fields = fields) ↔
      schema.maxFieldId + 1 < maxFieldIdExclusive ∧
      ForEachCall (FieldRequest.IsAccepted allowIncompatibleChanges) field requests ∧
      Schema.validateFieldNames (schema.fields.set index (changed field requests).withDefaults) =
        .ok () ∧
      fields = schema.fields.set index (changed field requests).withDefaults := by
  induction requests generalizing schema field with
  | nil => exact absurd rfl nonempty
  | cons request requests ih =>
      have alone : Continues schema field [request] := by
        refine ⟨?_, by simp, by simp⟩
        intro left leftMem right rightMem
        rw [List.mem_singleton.mp leftMem, List.mem_singleton.mp rightMem]
        exact fieldLocatorsMatch_self _
      rw [List.forall_mem_cons] at areCumulative addresses
      have first := fun updated => @evolve_eq_ok_iff types schema field index
        allowIncompatibleChanges [request] wellFormed isField (by simpa using areCumulative.1)
        (by simpa using addresses.1) alone updated
      simp only [changed_cons, changed_nil, ForEachCall, and_true] at first
      simp only [applyEach_cons, except_bind_eq_ok, first, changed_cons, ForEachCall]
      cases requests with
      | nil =>
          constructor
          · rintro ⟨updated, ⟨next, ⟨hasRoom, isAccepted, names, isNext⟩, isUpdated⟩, rfl⟩
            cases isUpdated
            exact ⟨hasRoom, ⟨isAccepted, trivial⟩, names, by rw [isNext]; rfl⟩
          · rintro ⟨hasRoom, ⟨isAccepted, -⟩, names, rfl⟩
            exact ⟨_, ⟨_, ⟨hasRoom, isAccepted, names, rfl⟩, rfl⟩, rfl⟩
      | cons later requests =>
          have notRenames := renamesLast request (by simp)
          have sameName : (request.change field).withDefaults.name = field.name :=
            FieldRequest.change_name_of_not_renames notRenames rfl
          have sameId : (request.change field).withDefaults.id = field.id := request.change_id field
          have names := (validateFieldNames_set isField sameName).trans wellFormed.names
          have inBounds := (List.getElem?_eq_some_iff.mp isField).1
          have rest : request.IsAccepted allowIncompatibleChanges field → _ := fun isAccepted =>
            @ih ⟨schema.fields.set index (request.change field).withDefaults, schema.maxFieldId,
                schema.id + 1⟩ (request.change field).withDefaults
              (wellFormed.set isField sameId (of_eq_ok_iff.mpr
                (by simp [isAccepted.isValid])) names _)
              (List.getElem?_set_self inBounds) (List.cons_ne_nil _ _) areCumulative.2
              (fun other otherMem => (addresses.2 other otherMem).congr sameName.symm sameId.symm)
              (renamesLast_tail renamesLast sameName)
          simp only [List.set_set, changed_congr (Field.withDefaults_withDefaults _),
            areAccepted_congr (Field.withDefaults_withDefaults _)] at rest
          constructor
          · rintro ⟨updated, ⟨next, ⟨hasRoom, isAccepted, -, rfl⟩, isUpdated⟩, isFields⟩
            rcases (rest isAccepted).mp ⟨updated, isUpdated, isFields⟩ with ⟨-, areAccepted, isRest⟩
            exact ⟨hasRoom, ⟨isAccepted, areAccepted⟩, isRest⟩
          · rintro ⟨hasRoom, ⟨isAccepted, areAccepted⟩, isRest⟩
            rcases (rest isAccepted).mpr ⟨hasRoom, areAccepted, isRest⟩ with
              ⟨updated, isUpdated, isFields⟩
            exact ⟨updated, ⟨_, ⟨hasRoom, isAccepted, names, rfl⟩, isUpdated⟩, isFields⟩

end Run

section WellFormed

theorem Field.of_of {field built : Field types} (isBuilt : Field.of field = .ok built) :
    Field.of built = .ok built := by
  rcases of_eq_ok_iff.mp isBuilt with ⟨isValid, rfl⟩
  apply of_eq_ok_iff.mpr
  simp [isValid]

theorem validateFieldNames_congr {left right : List (Field types)}
    (sameNames : left.map (·.name) = right.map (·.name)) :
    Schema.validateFieldNames left = Schema.validateFieldNames right := by
  have lowered : ∀ fields : List (Field types), fields.map (fun field => types.lower field.name) =
      (fields.map (·.name)).map types.lower := by
    intro fields
    simp
  have sameEmpty : left = [] ↔ right = [] := by
    rw [← @List.map_eq_nil_iff _ _ (fun field : Field types => field.name) left, sameNames,
      List.map_eq_nil_iff]
  unfold Schema.validateFieldNames
  simp only [lowered, sameNames, sameEmpty]

/-- `_populate_fields` builds its fields, with distinct identifiers. -/
theorem Schema.populateFields_spec {maxFieldId : ℤ} {fields populated final : List (Field types)}
    (isFinal : fields.foldlM (populateField maxFieldId) populated = .ok final)
    (areBuilt : ∀ field ∈ populated, Field.of field = .ok field)
    (ids : (Field.ids populated).Nodup) :
    (∀ field ∈ final, Field.of field = .ok field) ∧ (Field.ids final).Nodup := by
  induction fields generalizing populated with
  | nil =>
      cases isFinal
      exact ⟨areBuilt, ids⟩
  | cons field fields ih =>
      rw [List.foldlM_cons] at isFinal
      rcases except_bind_eq_ok.mp isFinal with ⟨next, isNext, afterNext⟩
      unfold populateField at isNext
      rcases except_bind_eq_ok.mp isNext with ⟨dcField, -, afterField⟩
      simp only at afterField
      split at afterField
      · cases afterField
      · rename_i isNew
        rcases except_bind_eq_ok.mp afterField with ⟨built, isBuilt, isResult⟩
        cases isResult
        apply ih afterNext
        · intro other otherMem
          rcases List.mem_append.mp otherMem with isOld | isLast
          · exact areBuilt other isOld
          · rw [List.mem_singleton.mp isLast]
            exact Field.of_of isBuilt
        · have builtId := (of_eq_ok_iff.mp isBuilt).2
          rw [Bool.not_eq_true, List.any_eq_false] at isNew
          simp only [Field.ids, List.filterMap_append, List.nodup_append]
          refine ⟨ids, by simp [builtId], ?_⟩
          rintro id isOld other isLast rfl
          rcases List.mem_filterMap.mp isOld with ⟨old, oldMem, oldId⟩
          rcases List.mem_filterMap.mp isLast with ⟨last, lastMem, lastId⟩
          rw [List.mem_singleton.mp lastMem, builtId] at lastId
          exact isNew old oldMem (by simpa [oldId] using lastId.symm)

theorem Schema.wellFormed_of {arrow : ArrowSchema types} {schemaId : Option ℕ}
    {schema : Schema types} (isSchema : Schema.of arrow schemaId = .ok schema) :
    schema.WellFormed := by
  have proper := (Schema.of_eq_ok isSchema).1
  unfold Schema.of at isSchema
  rcases except_bind_eq_ok.mp isSchema with ⟨_, isValid, afterValid⟩
  rcases except_bind_eq_ok.mp afterValid with ⟨fields, isPopulated, isResult⟩
  cases isResult
  rcases populateFields_eq_ok isPopulated with ⟨built, isBuilt, sameNames, _, _⟩
  obtain rfl : built = fields := by simpa using isBuilt.symm
  rcases populateFields_spec isPopulated (by simp) (by simp [Field.ids]) with ⟨areBuilt, ids⟩
  exact ⟨areBuilt, proper.identified, ids, (validateFieldNames_congr sameNames).trans isValid,
    le_refl _⟩

end WellFormed

section Mixture

variable {schema : Schema types} {field : Field types} {index : ℕ} {last : FieldLocator}

/-- On the locators of one field, matching is an equivalence. -/
theorem fieldLocatorsMatch_iff {left right : FieldLocator} (isLeft : left.Locates field)
    (isRight : right.Locates field) :
    fieldLocatorsMatch (some left) (some right) ↔
      locatorText (some left) = locatorText (some right) := by
  cases left with
  | name => cases right <;> simp [fieldLocatorsMatch]
  | path =>
      cases isLeft
      cases right with
      | path =>
          cases isRight
          simp [fieldLocatorsMatch]
      | _ => simp [fieldLocatorsMatch]
  | id leftId =>
      cases right with
      | id rightId =>
          obtain rfl : leftId = rightId := by simpa using isLeft.symm.trans isRight
          simp [fieldLocatorsMatch]
      | _ => simp [fieldLocatorsMatch]

/-- An operation that leaves a field with its name, and with its doc if its locator matches. -/
def KeepsDoc (field : Field types) (last : FieldLocator)
    (operation : SchemaUpdateOperation types) : Prop :=
  ∃ locator copy, operation = .update locator copy ∧ locator.Locates field ∧
    copy.name = field.name ∧
    (locatorText (some locator) = locatorText (some last) → copy.doc = field.doc)

/-- What `_get_existing_field` finds. -/
theorem getExistingField_keepsDoc (wellFormed : schema.WellFormed)
    (isField : schema.fields[index]? = some field) {update : SchemaUpdate types}
    (isBase : update.baseSchema = schema)
    (keepDoc : ∀ operation ∈ update.operations, KeepsDoc field last operation)
    {locator : FieldLocator} (locates : locator.Locates field) {existing : Field types}
    (isExisting : update.getExistingField locator = .ok existing) :
    existing.name = field.name ∧
      (locatorText (some locator) = locatorText (some last) → existing.doc = field.doc) := by
  unfold getExistingField at isExisting
  rw [locates.getFieldName_eq wellFormed isField isBase, isBase, wellFormed.find_name isField]
    at isExisting
  simp only at isExisting
  split at isExisting
  · cases isExisting
    exact ⟨rfl, fun _ => rfl⟩
  · rename_i operation isLast
    have isMember := List.mem_of_getLast? isLast
    rcases List.mem_filter.mp isMember with ⟨operationMem, isMatch⟩
    rcases keepDoc operation operationMem with ⟨other, copy, rfl, otherLocates, sameName, sameDoc⟩
    cases isExisting
    refine ⟨sameName, fun isLast => sameDoc ?_⟩
    exact ((fieldLocatorsMatch_iff otherLocates locates).mp isMatch).trans isLast

/-- A call that changes nothing. -/
def keepsName (field : Field types) (locator : FieldLocator) : FieldRequest types :=
  .rename locator field.name

/-- Updates of the doc that do not match the last locator leave its copies as they are. -/
theorem requests_keepDoc (wellFormed : schema.WellFormed)
    (isField : schema.fields[index]? = some field) {requests : List (FieldRequest types)}
    (areCalls : ∀ request ∈ requests, ∃ locator : FieldLocator, locator.Locates field ∧
      (request = keepsName field locator ∨
        locatorText (some locator) ≠ locatorText (some last) ∧
          ∃ doc, request = .updateDoc locator doc))
    {update next : SchemaUpdate types} (isBase : update.baseSchema = schema)
    (keepDoc : ∀ operation ∈ update.operations, KeepsDoc field last operation)
    (isNext : requests.foldlM SchemaUpdate.request update = .ok next) :
    ∀ operation ∈ next.operations, KeepsDoc field last operation := by
  induction requests generalizing update with
  | nil =>
      cases isNext
      exact keepDoc
  | cons request requests ih =>
      rw [List.foldlM_cons] at isNext
      rw [List.forall_mem_cons] at areCalls
      rcases except_bind_eq_ok.mp isNext with ⟨middle, isMiddle, afterMiddle⟩
      have appended : ∀ operation : SchemaUpdateOperation types,
          KeepsDoc field last operation →
          ∀ other ∈ update.operations ++ [operation], KeepsDoc field last other := by
        intro operation keeps other otherMem
        rcases List.mem_append.mp otherMem with isOld | isNew
        · exact keepDoc other isOld
        · rwa [List.mem_singleton.mp isNew]
      have found : ∀ {locator : FieldLocator} {existing : Field types}, locator.Locates field →
          update.getExistingField locator = .ok existing → _ := fun locates isExisting =>
        getExistingField_keepsDoc wellFormed isField isBase keepDoc locates isExisting
      apply ih areCalls.2 ((request_keeps isMiddle).1.trans isBase) _ afterMiddle
      rcases areCalls.1 with ⟨locator, locates, rfl | ⟨notLast, doc, rfl⟩⟩
      · rcases except_bind_eq_ok.mp isMiddle with ⟨existing, isExisting, isResult⟩
        cases isResult
        have kept := found locates isExisting
        exact appended _ ⟨locator, _, rfl, locates, rfl, kept.2⟩
      · rcases except_bind_eq_ok.mp isMiddle with ⟨existing, isExisting, isResult⟩
        cases isResult
        have kept := found locates isExisting
        exact appended _ ⟨locator, _, rfl, locates, kept.1, fun isLast => absurd isLast notLast⟩

/-- Operations that keep the name are applied to the field. -/
theorem operations_keepDoc {update : SchemaUpdate types} (wellFormed : schema.WellFormed)
    (isField : schema.fields[index]? = some field) (isBase : update.baseSchema = schema)
    {operations : List (SchemaUpdateOperation types)}
    (keepDoc : ∀ operation ∈ operations, KeepsDoc field last operation)
    {state final : ApplyState types} (isIndex : state.fieldNameToIndex field.name = some index)
    (isFinal : operations.foldlM update.applyOperation state = .ok final) :
    final.fieldNameToIndex field.name = some index ∧
      ∀ operation ∈ operations.getLast?, ∀ copy ∈ operation.field,
        final.fields[index]? = some copy.withDefaults := by
  induction operations generalizing state with
  | nil =>
      cases isFinal
      exact ⟨isIndex, by simp⟩
  | cons operation operations ih =>
      rw [List.foldlM_cons] at isFinal
      rw [List.forall_mem_cons] at keepDoc
      rcases except_bind_eq_ok.mp isFinal with ⟨next, isNext, afterNext⟩
      rcases keepDoc.1 with ⟨locator, copy, rfl, locates, sameName, -⟩
      have isName := locates.getFieldName_eq wellFormed isField isBase
      have isLocated : state.fieldNameToIndex (update.getFieldName locator) = some index := by
        rw [isName, isIndex]
      cases isOld : state.fields[index]? with
      | none =>
          simp [applyOperation, applyUpdateField, isLocated, isOld, throw, throwThe,
            MonadExceptOf.throw] at isNext
      | some oldField =>
          have inBounds := (List.getElem?_eq_some_iff.mp isOld).1
          have isResult := ((applyUpdateField_eq_ok_iff isLocated isOld).mp isNext).2
          rw [if_pos (isName.trans sameName.symm)] at isResult
          have nextIndex : next.fieldNameToIndex field.name = some index := by
            rw [isResult]
            exact isIndex
          rcases ih keepDoc.2 nextIndex afterNext with ⟨finalIndex, lastCopy⟩
          refine ⟨finalIndex, ?_⟩
          cases operations with
          | nil =>
              cases afterNext
              rw [isResult]
              simp [SchemaUpdateOperation.field, inBounds]
          | cons later operations => simpa using lastCopy

theorem evolve_keepsDoc {allowIncompatibleChanges : Bool} (wellFormed : schema.WellFormed)
    (isField : schema.fields[index]? = some field) {calls : List (FieldRequest types)}
    (areCalls : ∀ request ∈ calls ++ [keepsName field last],
      ∃ locator : FieldLocator, locator.Locates field ∧ (request = keepsName field locator ∨
        locatorText (some locator) ≠ locatorText (some last) ∧
          ∃ doc, request = .updateDoc locator doc)) {updated : Schema types}
    (isUpdated : evolve schema allowIncompatibleChanges (calls ++ [keepsName field last]) =
      .ok updated) :
    ∃ built, updated.fields[index]? = some built ∧ built.doc = field.doc := by
  rcases except_bind_eq_ok.mp isUpdated with ⟨update, isCalled, isApplied⟩
  have isBase := (requests_keep isCalled).1
  have keepDoc := requests_keepDoc wellFormed isField areCalls rfl (by simp) isCalled
  rw [List.foldlM_append] at isCalled
  rcases except_bind_eq_ok.mp isCalled with ⟨middle, -, afterMiddle⟩
  rw [List.foldlM_cons] at afterMiddle
  rcases except_bind_eq_ok.mp afterMiddle with ⟨next, isNext, isResult⟩
  cases isResult
  rcases except_bind_eq_ok.mp isNext with ⟨existing, -, isResult⟩
  cases isResult
  rcases exists_of_apply isApplied with ⟨final, isFinal, newSchema, isSchema, rfl⟩
  have isIndex : nameToIndex middle.baseSchema.fields field.name = some index := by
    rw [isBase]
    exact nameToIndex_eq (Schema.nodup_names wellFormed.names) isField
  have lastCopy := (operations_keepDoc wellFormed isField isBase keepDoc isIndex isFinal).2 _
    (by rw [List.getLast?_concat]; rfl) _ rfl
  have lastKeeps := keepDoc _ (List.mem_append_right _ (List.mem_singleton_self _))
  rcases lastKeeps with ⟨locator, copy, isOperation, -, -, sameDoc⟩
  cases isOperation
  rcases (List.forall₂_iff_get.mp (Schema.populated_of_of isSchema)) with ⟨sameLength, populated⟩
  rcases List.getElem?_eq_some_iff.mp lastCopy with ⟨inBounds, isCopy⟩
  have newBounds : index < newSchema.fields.length := sameLength ▸ inBounds
  rcases populated index newBounds inBounds with ⟨id, isBuilt, -⟩
  refine ⟨newSchema.fields[index], List.getElem?_eq_getElem newBounds, ?_⟩
  have builtDoc := congrArg (·.doc) isBuilt
  simp only [List.get_eq_getElem, isCopy] at builtDoc
  exact builtDoc.trans (sameDoc rfl)

end Mixture

section Main

variable {schema : Schema types} {field : Field types} {index : ℕ}
  {allowIncompatibleChanges : Bool} {requests : List (FieldRequest types)}

theorem fieldsOf_eq_some_iff {result : Except Error (Schema types)} {fields : List (Field types)} :
    fieldsOf result = some fields ↔ ∃ updated, result = .ok updated ∧ updated.fields = fields := by
  cases result <;> simp [fieldsOf, Except.toOption]

/-- What the calls do not change decides which values are filled in. -/
theorem changed_keeps :
    (changed field requests).pastDefault = field.pastDefault ∧
      (changed field requests).isMergeKey = field.isMergeKey ∧
      (changed field requests).mergeOrder = field.mergeOrder ∧
      (changed field requests).isEventTime = field.isEventTime := by
  induction requests generalizing field with
  | nil => exact ⟨rfl, rfl, rfl, rfl⟩
  | cons request requests ih =>
      rw [changed_cons]
      rcases @ih (request.change field) with ⟨pastDefault, isMergeKey, mergeOrder, isEventTime⟩
      rw [pastDefault, isMergeKey, mergeOrder, isEventTime]
      cases request <;> exact ⟨rfl, rfl, rfl, rfl⟩

/-- Nothing is filled in exactly if the calls keep the defaults. -/
theorem withDefaults_changed_iff :
    (changed field requests).withDefaults = changed field requests ↔
      KeepsDefaults field requests := by
  rcases @changed_keeps _ field requests with ⟨pastDefault, isMergeKey, mergeOrder, isEventTime⟩
  have given (value : Option types.Default) :
      (value <|> field.pastDefault) = value ↔ (field.pastDefault.isSome → value.isSome) := by
    cases value <;> cases field.pastDefault <;> simp
  have chosen (value : Option SchemaConsistencyType) :
      (value <|> if field.isMergeKey ∨ field.mergeOrder.isSome ∨ field.isEventTime then
        some .validate else none) = value ↔
        (field.isMergeKey ∨ field.mergeOrder.isSome ∨ field.isEventTime → value.isSome) := by
    cases value with
    | none => split_ifs with decides <;> simp [decides]
    | some value => simp
  have parts : (changed field requests).withDefaults = changed field requests ↔
      ((changed field requests).futureDefault <|> field.pastDefault) =
          (changed field requests).futureDefault ∧
        ((changed field requests).consistencyType <|>
          if field.isMergeKey ∨ field.mergeOrder.isSome ∨ field.isEventTime then some .validate
          else none) = (changed field requests).consistencyType := by
    rw [← pastDefault, ← isMergeKey, ← mergeOrder, ← isEventTime]
    constructor
    · intro same
      exact ⟨congrArg (·.futureDefault) same, congrArg (·.consistencyType) same⟩
    · rintro ⟨futureDefault, consistencyType⟩
      unfold Field.withDefaults
      rw [futureDefault, consistencyType]
  rw [parts, given, chosen]
  exact ⟨fun both => ⟨both.1, both.2⟩, fun keeps => ⟨keeps.1, keeps.2⟩⟩

/-- Calls that continue with each other lose no change but the values that are filled in. -/
theorem losesNothing_of_continues (wellFormed : schema.WellFormed)
    (isField : schema.fields[index]? = some field)
    (areCumulative : ∀ request ∈ requests, request.IsCumulative)
    (addresses : ∀ request ∈ requests, request.Addresses field)
    (continues : Continues schema field requests) (keeps : KeepsDefaults field requests) :
    LosesNothing schema allowIncompatibleChanges index field requests := by
  have together := fun updated => @evolve_eq_ok_iff _ _ _ _ allowIncompatibleChanges _ wellFormed
    isField areCumulative addresses continues updated
  constructor
  · by_cases nonempty : requests = []
    · subst nonempty
      have isBuilt := wellFormed.isBuilt field (List.mem_of_getElem? isField)
      have same : schema.fields.set index field.withDefaults = schema.fields := by
        rcases List.getElem?_eq_some_iff.mp isField with ⟨inBounds, isField⟩
        rw [← (of_eq_ok_iff.mp isBuilt).2, ← isField, List.set_getElem_self]
      have isUpdated := (together _).mpr ⟨continues.hasRoom rfl, trivial,
        by simpa [same] using wellFormed.names, rfl⟩
      rw [isUpdated]
      simp [fieldsOf, applyEach, same, Except.toOption, pure, Except.pure]
    · apply Option.ext
      intro fields
      rw [fieldsOf_eq_some_iff, fieldsOf_eq_some_iff, applyEach_eq_ok_iff wellFormed isField
        nonempty areCumulative addresses continues.renamesLast]
      simp only [together]
      constructor
      · rintro ⟨updated, ⟨hasRoom, areAccepted, names, rfl⟩, rfl⟩
        exact ⟨hasRoom, areAccepted, names, rfl⟩
      · rintro ⟨hasRoom, areAccepted, names, rfl⟩
        exact ⟨_, ⟨hasRoom, areAccepted, names, rfl⟩, rfl⟩
  · intro updated isUpdated
    rw [((together updated).mp isUpdated).2.2.2]
    dsimp only
    rw [withDefaults_changed_iff.mpr keeps]

/-- Without a free identifier, every update is refused. -/
theorem hasRoom_of_evolve {updated : Schema types}
    (isUpdated : evolve schema allowIncompatibleChanges requests = .ok updated) :
    schema.maxFieldId + 1 < maxFieldIdExclusive := by
  rcases except_bind_eq_ok.mp isUpdated with ⟨update, isCalled, isApplied⟩
  rw [← show update.baseSchema = schema from (requests_keep isCalled).1]
  by_contra noRoom
  simp [apply, not_lt.mp noRoom, throw, throwThe, MonadExceptOf.throw] at isApplied

theorem losesNothing_of_noRoom (noRoom : ¬schema.maxFieldId + 1 < maxFieldIdExclusive)
    (nonempty : requests ≠ []) :
    LosesNothing schema allowIncompatibleChanges index field requests := by
  have isRefused : ∀ {requests : List (FieldRequest types)} {updated : Schema types},
      evolve schema allowIncompatibleChanges requests ≠ .ok updated :=
    fun isUpdated => noRoom (hasRoom_of_evolve isUpdated)
  constructor
  · apply Option.ext
    intro fields
    rw [fieldsOf_eq_some_iff, fieldsOf_eq_some_iff]
    cases requests with
    | nil => exact absurd rfl nonempty
    | cons request requests =>
        simp [applyEach_cons, except_bind_eq_ok, isRefused]
  · intro updated isUpdated
    exact absurd isUpdated isRefused

theorem changed_append {left right : List (FieldRequest types)} :
    changed field (left ++ right) = changed (changed field left) right := by
  simp [changed]

theorem changed_keepsName (locators : List FieldLocator) {copy : Field types}
    (sameName : copy.name = field.name) :
    changed copy (locators.map (keepsName field)) = copy := by
  induction locators with
  | nil => rfl
  | cons locator locators ih =>
      have same : (keepsName field locator).change copy = copy := by
        rw [keepsName, FieldRequest.change, ← sameName]
      rw [List.map_cons, changed_cons, same, ih]

/-- Calls that keep the name or change the doc are accepted. -/
theorem areAccepted_of_isValid (isValid : field.withDefaults.validate = .ok ()) {base : Field types}
    (areCalls : ∀ request ∈ requests, ∃ locator : FieldLocator,
      request = keepsName base locator ∨ ∃ doc, request = .updateDoc locator doc) :
    ForEachCall (FieldRequest.IsAccepted true) field requests := by
  induction requests generalizing field with
  | nil => trivial
  | cons request requests ih =>
      rw [List.forall_mem_cons] at areCalls
      rcases areCalls.1 with ⟨locator, rfl | ⟨doc, rfl⟩⟩
      · exact ⟨⟨trivial, .inl rfl, isValid⟩, ih isValid areCalls.2⟩
      · exact ⟨⟨trivial, .inl rfl, isValid⟩, ih isValid areCalls.2⟩

theorem exists_split {locators : List FieldLocator} (locate : ∀ locator ∈ locators,
      locator.Locates field)
    (mismatch : ¬∀ left ∈ locators, ∀ right ∈ locators,
      fieldLocatorsMatch (some left) (some right)) :
    ∃ before bad middle last, locators = before ++ bad :: middle ++ [last] ∧
      locatorText (some bad) ≠ locatorText (some last) := by
  push Not at mismatch
  rcases mismatch with ⟨left, leftMem, right, rightMem, notMatch⟩
  rw [ne_eq, fieldLocatorsMatch_iff (locate left leftMem) (locate right rightMem)] at notMatch
  rcases List.eq_nil_or_concat locators with rfl | ⟨init, last, rfl⟩
  · simp at leftMem
  · have exists_bad : ∃ bad ∈ init, locatorText (some bad) ≠ locatorText (some last) := by
      by_cases leftLast : locatorText (some left) = locatorText (some last)
      · refine ⟨right, ?_, fun rightLast => notMatch (leftLast.trans rightLast.symm)⟩
        have notLast : right ≠ last := by
          rintro rfl
          exact notMatch leftLast
        simpa [notLast] using rightMem
      · refine ⟨left, ?_, leftLast⟩
        have notLast : left ≠ last := by
          rintro rfl
          exact leftLast rfl
        simpa [notLast] using leftMem
    rcases exists_bad with ⟨bad, badMem, isBad⟩
    rcases List.append_of_mem badMem with ⟨before, middle, rfl⟩
    exact ⟨before, bad, middle, last, by simp, isBad⟩

/-- A change of the doc is lost if the last call has a locator that does not match. -/
theorem loses_doc (wellFormed : schema.WellFormed) (isField : schema.fields[index]? = some field)
    (hasRoom : schema.maxFieldId + 1 < maxFieldIdExclusive)
    {before middle : List FieldLocator} {bad last : FieldLocator}
    (locate : ∀ locator ∈ before ++ bad :: middle ++ [last], locator.Locates field)
    (isBad : locatorText (some bad) ≠ locatorText (some last))
    (keeps : ∀ requests : List (FieldRequest types),
      requests.map (·.fieldLocator) = (before ++ bad :: middle ++ [last]).map some →
      (∀ request ∈ requests, request.IsCumulative) →
      (∀ request ∈ requests.dropLast, ¬request.Renames field) →
      KeepsDefaults field requests → LosesNothing schema true index field requests) : False := by
  have isBuilt := wellFormed.isBuilt field (List.mem_of_getElem? isField)
  have inBounds := (List.getElem?_eq_some_iff.mp isField).1
  have exists_doc : ∃ doc, doc ≠ field.doc := by
    cases isDoc : field.doc with
    | none => exact ⟨some "", by simp⟩
    | some => exact ⟨none, by simp⟩
  rcases exists_doc with ⟨doc, isNew⟩
  have calls : ∃ calls : List (FieldRequest types), calls = before.map (keepsName field) ++
      .updateDoc bad doc :: middle.map (keepsName field) := ⟨_, rfl⟩
  rcases calls with ⟨calls, isCalls⟩
  have areCalls : ∀ request ∈ calls ++ [keepsName field last], ∃ locator : FieldLocator,
      locator ∈ before ++ bad :: middle ++ [last] ∧ (request = keepsName field locator ∨
        locatorText (some locator) ≠ locatorText (some last) ∧
          ∃ doc, request = .updateDoc locator doc) := by
    intro request requestMem
    simp only [isCalls, List.mem_append, List.mem_cons, List.mem_map, List.not_mem_nil,
      or_false] at requestMem
    rcases requestMem with (⟨locator, locatorMem, rfl⟩ | rfl | ⟨locator, locatorMem, rfl⟩) | rfl
    · exact ⟨locator, by simp [locatorMem], .inl rfl⟩
    · exact ⟨bad, by simp, .inr ⟨isBad, doc, rfl⟩⟩
    · exact ⟨locator, by simp [locatorMem], .inl rfl⟩
    · exact ⟨last, by simp, .inl rfl⟩
  have areLocators : (calls ++ [keepsName field last]).map (·.fieldLocator) =
      (before ++ bad :: middle ++ [last]).map some := by
    have each : ∀ locators : List FieldLocator,
        (locators.map (keepsName field)).map (·.fieldLocator) = locators.map some := by
      intro locators
      rw [List.map_map]
      rfl
    simp only [isCalls, List.map_append, List.map_cons, each]
    rfl
  have areCumulative : ∀ request ∈ calls ++ [keepsName field last], request.IsCumulative := by
    intro request requestMem
    rcases areCalls request requestMem with ⟨locator, -, rfl | ⟨-, doc, rfl⟩⟩ <;> trivial
  have neverRename : ∀ request ∈ calls ++ [keepsName field last], ¬request.Renames field := by
    intro request requestMem renames
    rcases areCalls request requestMem with ⟨locator, -, rfl | ⟨-, doc, rfl⟩⟩
    · exact renames rfl
    · exact renames
  have isChanged : changed field (calls ++ [keepsName field last]) =
      { field with doc := doc } := by
    have sameName : ({ field with doc := doc } : Field types).name = field.name := rfl
    rw [isCalls, changed_append, changed_append, changed_keepsName before rfl, changed_cons]
    exact (congrArg (changed · _) (changed_keepsName middle sameName)).trans
      (changed_keepsName [last] sameName)
  have isDefault : field = field.withDefaults := (of_eq_ok_iff.mp isBuilt).2
  have keepsDefaults : KeepsDefaults field (calls ++ [keepsName field last]) := by
    rw [← withDefaults_changed_iff, isChanged]
    have sameRest : ({ field with doc := doc } : Field types).withDefaults =
        { field.withDefaults with doc := doc } := rfl
    rw [sameRest, ← isDefault]
  have loses := keeps _ areLocators areCumulative (fun request requestMem =>
    neverRename request (List.mem_of_mem_dropLast requestMem)) keepsDefaults
  have accepted := @areAccepted_of_isValid _ field (calls ++ [keepsName field last])
    (of_eq_ok_iff.mp isBuilt).1 field fun request requestMem => by
      rcases areCalls request requestMem with ⟨locator, -, isKept | ⟨-, doc, isDoc⟩⟩
      · exact ⟨locator, .inl isKept⟩
      · exact ⟨locator, .inr ⟨doc, isDoc⟩⟩
  have addresses : ∀ request ∈ calls ++ [keepsName field last], request.Addresses field := by
    intro request requestMem
    rcases areCalls request requestMem with ⟨locator, isLocator, rfl | ⟨-, doc, rfl⟩⟩
    · exact ⟨locator, rfl, locate locator isLocator⟩
    · exact ⟨locator, rfl, locate locator isLocator⟩
  have sameName : ({ field with doc := doc } : Field types).withDefaults.name = field.name := rfl
  have isApplied := (@applyEach_eq_ok_iff _ _ _ _ true _ wellFormed isField (by simp) areCumulative
    addresses (fun request requestMem => neverRename request (List.mem_of_mem_dropLast requestMem))
    _).mpr ⟨hasRoom, accepted, by
      rw [isChanged, validateFieldNames_set isField sameName, wellFormed.names], rfl⟩
  rw [← fieldsOf_eq_some_iff, ← loses.1, fieldsOf_eq_some_iff] at isApplied
  rcases isApplied with ⟨updated, isUpdated, isFields⟩
  rcases evolve_keepsDoc wellFormed isField (fun request requestMem => by
    rcases areCalls request requestMem with ⟨locator, isLocator, isCall⟩
    exact ⟨locator, locate locator isLocator, isCall⟩) isUpdated with ⟨built, isBuilt, sameDoc⟩
  rw [isFields, isChanged, List.getElem?_set_self inBounds] at isBuilt
  cases isBuilt
  exact isNew sameDoc

/-- The locators of a chain of calls match each other. -/
structure MatchEachOther (schema : Schema types) (locators : List FieldLocator) : Prop where
  hasRoom : locators = [] → schema.maxFieldId + 1 < maxFieldIdExclusive
  sameText : schema.maxFieldId + 1 < maxFieldIdExclusive → ∀ left ∈ locators,
    ∀ right ∈ locators, fieldLocatorsMatch (some left) (some right)

/-- Calls only append operations. -/
theorem requests_append {update next : SchemaUpdate types}
    (isNext : requests.foldlM SchemaUpdate.request update = .ok next) :
    ∃ operations, next.operations = update.operations ++ operations := by
  induction requests generalizing update with
  | nil =>
      cases isNext
      exact ⟨[], by simp⟩
  | cons request requests ih =>
      rw [List.foldlM_cons] at isNext
      rcases except_bind_eq_ok.mp isNext with ⟨middle, isMiddle, afterMiddle⟩
      rcases ih afterMiddle with ⟨operations, isAppended⟩
      have isFirst : ∃ operation, middle.operations = update.operations ++ [operation] := by
        cases isKind : request.kind with
        | update =>
            rcases request_update isKind isMiddle with ⟨_, _, _, _, _, rfl, _⟩
            exact ⟨_, rfl⟩
        | _ =>
            cases request <;> cases isKind
            cases isMiddle
            exact ⟨_, rfl⟩
      rcases isFirst with ⟨operation, isFirst⟩
      exact ⟨operation :: operations, by simp [isAppended, isFirst]⟩

/-- After a field got another name, its old name is gone. -/
theorem applyUpdateField_renames {update : SchemaUpdate types} {state next : ApplyState types}
    {locator : FieldLocator} {updatedField : Field types}
    (isRenamed : updatedField.name ≠ update.getFieldName locator)
    (isNext : update.applyUpdateField state locator updatedField = .ok next) :
    next.fieldNameToIndex (update.getFieldName locator) = none := by
  cases isIndex : state.fieldNameToIndex (update.getFieldName locator) with
  | none => simp [applyUpdateField, isIndex, throw, throwThe, MonadExceptOf.throw] at isNext
  | some index =>
      cases isOld : state.fields[index]? with
      | none =>
          simp [applyUpdateField, isIndex, isOld, throw, throwThe, MonadExceptOf.throw] at isNext
      | some oldField =>
          rw [((applyUpdateField_eq_ok_iff isIndex isOld).mp isNext).2]
          simp [isRenamed.symm]

theorem exists_later {Value : Type} {values : List Value} {value : Value}
    (isEarly : value ∈ values.dropLast) :
    ∃ before later after, values = before ++ value :: later :: after := by
  rcases List.eq_nil_or_concat values with rfl | ⟨init, last, rfl⟩
  · cases isEarly
  · rw [List.concat_eq_append, List.dropLast_concat] at isEarly
    rcases List.append_of_mem isEarly with ⟨before, after, rfl⟩
    cases after with
    | nil => exact ⟨before, last, [], by simp⟩
    | cons later after => exact ⟨before, later, after ++ [last], by simp⟩

/-- No update is applied in which a call follows one that renames the field. -/
theorem evolve_ne_ok_of_renames (wellFormed : schema.WellFormed)
    (isField : schema.fields[index]? = some field)
    (areCumulative : ∀ request ∈ requests, request.IsCumulative)
    (addresses : ∀ request ∈ requests, request.Addresses field)
    (renames : ∃ request ∈ requests.dropLast, request.Renames field) {updated : Schema types} :
    evolve schema allowIncompatibleChanges requests ≠ .ok updated := by
  intro isUpdated
  rcases renames with ⟨request, requestMem, renames⟩
  rcases exists_later requestMem with ⟨before, later, after, rfl⟩
  rcases except_bind_eq_ok.mp isUpdated with ⟨update, isCalled, isApplied⟩
  have isBase := (requests_keep isCalled).1
  have isNamed : ∀ {locator : FieldLocator}, locator.Locates field →
      update.getFieldName locator = field.name :=
    fun locates => locates.getFieldName_eq wellFormed isField isBase
  -- The operations of the renaming call and of the call after it are next to each other.
  have exists_operations : ∃ operations locator copy laterLocator laterCopy rest,
      update.operations = operations ++ .update locator copy ::
        .update laterLocator laterCopy :: rest ∧
      locator.Locates field ∧ copy.name ≠ field.name ∧ laterLocator.Locates field := by
    rw [List.foldlM_append] at isCalled
    rcases except_bind_eq_ok.mp isCalled with ⟨first, -, afterFirst⟩
    rw [List.foldlM_cons] at afterFirst
    rcases except_bind_eq_ok.mp afterFirst with ⟨second, isSecond, afterSecond⟩
    rw [List.foldlM_cons] at afterSecond
    rcases except_bind_eq_ok.mp afterSecond with ⟨third, isThird, afterThird⟩
    rcases requests_append afterThird with ⟨rest, isRest⟩
    have laterCall := areCumulative later (by simp)
    rcases addresses request (by simp) with ⟨locator, isLocator, locates⟩
    rcases addresses later (by simp) with ⟨laterLocator, isLaterLocator, laterLocates⟩
    have isKind : later.kind = .update := by
      cases later <;> first | rfl | cases laterCall
    rcases request_update isKind isThird with ⟨_, _, laterCopy, isLater, _, rfl, _⟩
    cases request with
    | rename renamedLocator newName =>
        cases isLocator
        rcases except_bind_eq_ok.mp isSecond with ⟨existing, -, isResult⟩
        cases isResult
        cases isLater.symm.trans isLaterLocator
        refine ⟨first.operations, locator, { existing with name := newName }, laterLocator,
          laterCopy, rest, by simp [isRest], locates, ?_, laterLocates⟩
        exact renames
    | _ => cases renames
  rcases exists_operations with
    ⟨operations, locator, copy, laterLocator, laterCopy, rest, isOperations, locates, isRenamed,
      laterLocates⟩
  rcases exists_of_apply isApplied with ⟨final, isFinal, -⟩
  rw [isOperations, List.foldlM_append] at isFinal
  rcases except_bind_eq_ok.mp isFinal with ⟨first, -, afterFirst⟩
  rw [List.foldlM_cons] at afterFirst
  rcases except_bind_eq_ok.mp afterFirst with ⟨second, isSecond, afterSecond⟩
  rw [List.foldlM_cons] at afterSecond
  rcases except_bind_eq_ok.mp afterSecond with ⟨third, isThird, -⟩
  have isGone := applyUpdateField_renames (by rwa [isNamed locates]) isSecond
  rw [isNamed locates, ← isNamed laterLocates] at isGone
  simp [applyOperation, applyUpdateField, isGone, throw, throwThe, MonadExceptOf.throw] at isThird

/--
The calls through a mixture of locators of a field lose no change if and only if the locators
match each other, as long as at most the last one renames the field and they keep its
defaults. With such locators, a chain that is applied loses nothing exactly if it keeps the
defaults, and none is applied in which a call follows a renaming.
-/
theorem losesNothing_iff (wellFormed : schema.WellFormed)
    (isField : schema.fields[index]? = some field) (locators : List FieldLocator)
    (locate : ∀ locator ∈ locators, locator.Locates field) :
    ((∀ allowIncompatibleChanges (requests : List (FieldRequest types)),
      requests.map (·.fieldLocator) = locators.map some →
      (∀ request ∈ requests, request.IsCumulative) →
      (∀ request ∈ requests.dropLast, ¬request.Renames field) →
      KeepsDefaults field requests →
      LosesNothing schema allowIncompatibleChanges index field requests) ↔
        MatchEachOther schema locators) ∧
    (MatchEachOther schema locators →
      ∀ allowIncompatibleChanges (requests : List (FieldRequest types)) updated,
        requests.map (·.fieldLocator) = locators.map some →
        (∀ request ∈ requests, request.IsCumulative) →
        evolve schema allowIncompatibleChanges requests = .ok updated →
        (∀ request ∈ requests.dropLast, ¬request.Renames field) ∧
          (LosesNothing schema allowIncompatibleChanges index field requests ↔
            KeepsDefaults field requests)) := by
  have addresses {requests : List (FieldRequest types)}
      (areLocators : requests.map (·.fieldLocator) = locators.map some) :
      ∀ request ∈ requests, ∃ locator ∈ locators, request.fieldLocator = some locator := by
    intro request requestMem
    have isMember : request.fieldLocator ∈ requests.map (·.fieldLocator) :=
      List.mem_map_of_mem requestMem
    rw [areLocators] at isMember
    simpa [eq_comm] using isMember
  have areAddressed {requests : List (FieldRequest types)}
      (areLocators : requests.map (·.fieldLocator) = locators.map some) :
      ∀ request ∈ requests, request.Addresses field := by
    intro request requestMem
    rcases addresses areLocators request requestMem with ⟨locator, locatorMem, isLocator⟩
    exact ⟨locator, isLocator, locate locator locatorMem⟩
  have continues (matchEach : MatchEachOther schema locators)
      {requests : List (FieldRequest types)}
      (areLocators : requests.map (·.fieldLocator) = locators.map some)
      (renamesLast : ∀ request ∈ requests.dropLast, ¬request.Renames field)
      (hasRoom : schema.maxFieldId + 1 < maxFieldIdExclusive) :
      Continues schema field requests := by
    refine ⟨?_, renamesLast, fun _ => hasRoom⟩
    intro left leftMem right rightMem
    rcases addresses areLocators left leftMem with ⟨leftLocator, isLeft, leftIs⟩
    rcases addresses areLocators right rightMem with ⟨rightLocator, isRight, rightIs⟩
    rw [leftIs, rightIs]
    exact matchEach.sameText hasRoom leftLocator isLeft rightLocator isRight
  constructor
  · constructor
    · intro keeps
      constructor
      · rintro rfl
        have isBuilt := wellFormed.isBuilt field (List.mem_of_getElem? isField)
        have keepsDefaults : KeepsDefaults field [] := by
          rw [← withDefaults_changed_iff, changed_nil, ← (of_eq_ok_iff.mp isBuilt).2]
        have same := (keeps true [] rfl (by simp) (by simp) keepsDefaults).1
        have isBase : fieldsOf (applyEach schema true []) = some schema.fields := rfl
        rw [isBase, fieldsOf_eq_some_iff] at same
        rcases same with ⟨updated, isUpdated, -⟩
        exact hasRoom_of_evolve isUpdated
      · intro hasRoom
        by_contra mismatch
        rcases exists_split locate mismatch with ⟨before, bad, middle, last, rfl, isBad⟩
        exact loses_doc wellFormed isField hasRoom locate isBad fun requests areLocators =>
          keeps true requests areLocators
    · intro matchEach allowIncompatibleChanges requests areLocators areCumulative renamesLast
        keepsDefaults
      by_cases hasRoom : schema.maxFieldId + 1 < maxFieldIdExclusive
      · exact losesNothing_of_continues wellFormed isField areCumulative
          (areAddressed areLocators) (continues matchEach areLocators renamesLast hasRoom)
          keepsDefaults
      · apply losesNothing_of_noRoom hasRoom
        rintro rfl
        exact hasRoom (matchEach.hasRoom (by simpa using areLocators.symm))
  · intro matchEach allowIncompatibleChanges requests updated areLocators areCumulative isUpdated
    have renamesLast : ∀ request ∈ requests.dropLast, ¬request.Renames field := by
      by_contra renames
      push Not at renames
      exact evolve_ne_ok_of_renames wellFormed isField areCumulative (areAddressed areLocators)
        renames isUpdated
    have isContinued :=
      continues matchEach areLocators renamesLast (hasRoom_of_evolve isUpdated)
    refine ⟨renamesLast, ?_, losesNothing_of_continues wellFormed isField areCumulative
      (areAddressed areLocators) isContinued⟩
    rintro ⟨-, carriesAll⟩
    have isBuilt := ((evolve_eq_ok_iff wellFormed isField areCumulative
      (areAddressed areLocators) isContinued).mp isUpdated).2.2.2
    have isCarried := carriesAll updated isUpdated
    rw [isBuilt] at isCarried
    have inBounds := (List.getElem?_eq_some_iff.mp isField).1
    have same := congrArg (·[index]?) isCarried
    simp only [List.getElem?_set_self inBounds, Option.some.injEq] at same
    exact withDefaults_changed_iff.mp same

end Main

section Examples

open SchemaHistory

private theorem letters_isSome :
    (Schema.of ⟨[integerField "a", integerField "b"], none⟩ none).toOption.isSome := by
  decide +kernel

/-- A schema with two fields. -/
def letters : Schema integerTypes :=
  (Schema.of ⟨[integerField "a", integerField "b"], none⟩ none).toOption.get letters_isSome

theorem letters_eq :
    Schema.of ⟨[integerField "a", integerField "b"], none⟩ none = .ok letters :=
  toOption_eq_some.mp (Option.some_get letters_isSome).symm

private theorem letters_first : (letters.fields[0]?).isSome := by decide +kernel

def firstLetter : Field integerTypes := (letters.fields[0]?).get letters_first

private theorem firstLetter_eq : letters.fields[0]? = some firstLetter :=
  (Option.some_get letters_first).symm

private theorem firstLetter_name : firstLetter.name = "a" := by decide +kernel

private theorem firstLetter_id : firstLetter.id = some 0 := by decide +kernel

/-- A field that is documented by its name and renamed by its path keeps its doc. -/
theorem losesNothing_nameAndPath :
    LosesNothing letters false 0 firstLetter
      [.updateDoc (.name "a") (some "first"), .rename (.path ["a"]) "c"] := by
  have matchEach : MatchEachOther letters [.name "a", .path ["a"]] :=
    ⟨fun isEmpty => absurd isEmpty (by simp), fun _ => by decide⟩
  refine (losesNothing_iff (Schema.wellFormed_of letters_eq) firstLetter_eq
    [.name "a", .path ["a"]] ?_).1.mpr matchEach false _ rfl ?_ ?_ ?_
  · simp [FieldLocator.Locates, firstLetter_name]
  · simp [FieldRequest.IsCumulative]
  · simp [FieldRequest.Renames]
  · exact ⟨by decide +kernel, by decide +kernel⟩

/-- A doc that was given by name is lost when the next call has the identifier of the field. -/
theorem not_losesNothing :
    ∃ requests : List (FieldRequest integerTypes),
      letters.WellFormed ∧ letters.fields[0]? = some firstLetter ∧
      (∀ request ∈ requests, request.IsCumulative ∧ request.Addresses firstLetter) ∧
      ¬LosesNothing letters false 0 firstLetter requests := by
  refine ⟨[.updateDoc (.name "a") (some "first"), .rename (.id 0) "c"],
    Schema.wellFormed_of letters_eq, firstLetter_eq, ?_, ?_⟩
  · simp [FieldRequest.IsCumulative, FieldRequest.Addresses, FieldRequest.fieldLocator,
      FieldLocator.Locates, firstLetter_name, firstLetter_id]
  · rintro ⟨-, carriesAll⟩
    have isLost : ((evolve letters false [.updateDoc (.name "a") (some "first"),
        .rename (.id 0) "c"]).toOption.map
          fun updated => updated.fields.map (·.doc)) = some [none, none] := by decide +kernel
    rcases Option.map_eq_some_iff.mp isLost with ⟨updated, isUpdated, isDoc⟩
    rw [carriesAll updated (toOption_eq_some.mp isUpdated)] at isDoc
    have kept : (letters.fields.set 0 (changed firstLetter [.updateDoc (.name "a") (some "first"),
        .rename (.id 0) "c"])).map (·.doc) = [some "first", none] := by decide +kernel
    exact absurd (isDoc.symm.trans kept) (by decide)

end Examples

end Deltacat.Storage
