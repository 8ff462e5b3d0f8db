import Deltacat.Storage.SchemaHistory

/-!
# Fields of an updated schema

What the operations of a schema update do to the fields, and that `Schema.of` only fills in
what the fields lack.
-/

namespace Deltacat.Storage

open Deltacat.Library

variable {types : ArrowTypes}

namespace Field

@[simp] theorem withDefaults_type (field : Field types) :
    field.withDefaults.type = field.type := rfl

@[simp] theorem withDefaults_withDefaults (field : Field types) :
    field.withDefaults.withDefaults = field.withDefaults := by
  rcases field with ⟨_, _, _, _, isMergeKey, mergeOrder, isEventTime, _, pastDefault,
    futureDefault, consistencyType⟩
  cases futureDefault <;> cases pastDefault <;> cases consistencyType <;>
    cases isMergeKey <;> cases mergeOrder <;> cases isEventTime <;> rfl

end Field

namespace Schema

/-- A field with the values that `Schema.of` fills in, and with an identifier. -/
def Populated (built field : Field types) : Prop :=
  ∃ id, built = { field.withDefaults with id := some id } ∧ ∀ given ∈ field.id, id = given

theorem populated_of_populateField {maxFieldId : ℤ} {populated next : List (Field types)}
    {field : Field types} (isNext : populateField maxFieldId populated field = .ok next) :
    ∃ built, next = populated ++ [built] ∧ Populated built field := by
  unfold populateField at isNext
  rcases except_bind_eq_ok.mp isNext with ⟨dcField, isField, afterField⟩
  have isDefault := Field.of_eq_ok isField
  simp only at afterField
  split at afterField
  · cases afterField
  · rcases except_bind_eq_ok.mp afterField with ⟨built, isBuilt, isResult⟩
    have isBuilt := Field.of_eq_ok isBuilt
    cases isResult
    refine ⟨built, rfl, _, isBuilt, ?_⟩
    intro given isGiven
    rw [isDefault, Field.withDefaults_id, Option.mem_def.mp isGiven]
    rfl

theorem populated_of_populateFields {maxFieldId : ℤ} {populated fields final : List (Field types)}
    (isFinal : fields.foldlM (populateField maxFieldId) populated = .ok final) :
    ∃ built, final = populated ++ built ∧ List.Forall₂ Populated built fields := by
  induction fields generalizing populated with
  | nil =>
      cases isFinal
      exact ⟨[], by simp, List.Forall₂.nil⟩
  | cons field fields ih =>
      rw [List.foldlM_cons] at isFinal
      rcases except_bind_eq_ok.mp isFinal with ⟨next, isNext, afterNext⟩
      rcases populated_of_populateField isNext with ⟨first, rfl, isFirst⟩
      rcases ih afterNext with ⟨rest, rfl, areRest⟩
      exact ⟨first :: rest, by simp, List.Forall₂.cons isFirst areRest⟩

/-- `Schema.of` keeps the fields in order. -/
theorem populated_of_of {arrow : ArrowSchema types} {schemaId : Option ℕ} {schema : Schema types}
    (isSchema : Schema.of arrow schemaId = .ok schema) :
    List.Forall₂ Populated schema.fields arrow.fields := by
  unfold Schema.of at isSchema
  rcases except_bind_eq_ok.mp isSchema with ⟨_, _, afterValid⟩
  rcases except_bind_eq_ok.mp afterValid with ⟨fields, isPopulated, isResult⟩
  cases isResult
  rcases populated_of_populateFields isPopulated with ⟨built, isBuilt, areBuilt⟩
  obtain rfl : built = fields := by simpa using isBuilt.symm
  exact areBuilt

end Schema

namespace SchemaUpdate

variable {update next : SchemaUpdate types} {state final : ApplyState types}

/-- A call changes only the pending operations. -/
theorem request_keeps {request : FieldRequest types} (isNext : update.request request = .ok next) :
    next.baseSchema = update.baseSchema ∧
      next.allowIncompatibleChanges = update.allowIncompatibleChanges := by
  cases isKind : request.kind with
  | update =>
      rcases request_update isKind isNext with ⟨_, _, _, _, _, rfl, _⟩
      exact ⟨rfl, rfl⟩
  | _ =>
      cases request <;> cases isKind
      cases isNext
      exact ⟨rfl, rfl⟩

theorem requests_keep {requests : List (FieldRequest types)}
    (isNext : requests.foldlM request update = .ok next) :
    next.baseSchema = update.baseSchema ∧
      next.allowIncompatibleChanges = update.allowIncompatibleChanges := by
  induction requests generalizing update with
  | nil =>
      cases isNext
      exact ⟨rfl, rfl⟩
  | cons request requests ih =>
      rw [List.foldlM_cons] at isNext
      rcases except_bind_eq_ok.mp isNext with ⟨middle, isMiddle, afterMiddle⟩
      rcases request_keeps isMiddle with ⟨sameBase, sameAllowed⟩
      rcases ih afterMiddle with ⟨base, allowed⟩
      exact ⟨base.trans sameBase, allowed.trans sameAllowed⟩

/-- An applied update replaces a field after validating its new version. -/
theorem applyUpdateField_validates {locator : FieldLocator} {updatedField : Field types}
    {next : ApplyState types}
    (isNext : update.applyUpdateField state locator updatedField = .ok next) :
    ∃ fieldIndex oldField, state.fields[fieldIndex]? = some oldField ∧
      update.unlessAllowed (update.validateUpdateField oldField updatedField) = .ok () ∧
      next.fields = state.fields.set fieldIndex updatedField.withDefaults := by
  unfold applyUpdateField at isNext
  simp only at isNext
  split at isNext
  · cases isNext
  · split at isNext
    · cases isNext
    · rename_i fieldIndex _ _ oldField isOld
      rcases except_bind_eq_ok.mp isNext with ⟨_, isValid, afterValid⟩
      rcases except_bind_eq_ok.mp afterValid with ⟨field, isField, isResult⟩
      have isField := Field.of_eq_ok isField
      cases isResult
      exact ⟨fieldIndex, oldField, isOld, isValid, by rw [isField]⟩

theorem isCompatible_of_validateUpdateField {oldField newField : Field types}
    (isValid : update.validateUpdateField oldField newField = .ok ()) :
    types.isCompatible oldField.type newField.type = true := by
  by_contra incompatible
  unfold validateUpdateField at isValid
  simp only [incompatible] at isValid
  split_ifs at isValid
  all_goals
    rcases except_bind_eq_ok.mp isValid with ⟨_, _, afterConsistency⟩
    contradiction

/-- What `apply` does, in the order of its steps. -/
theorem exists_of_apply {updated : Schema types} (isUpdated : update.apply = .ok updated) :
    ∃ final, update.operations.foldlM update.applyOperation ⟨update.baseSchema.fields,
        nameToIndex update.baseSchema.fields, update.baseSchema.maxFieldId + 1⟩ = .ok final ∧
      ∃ newSchema, Schema.of ⟨final.fields, none⟩ (some (update.baseSchema.id + 1)) =
          .ok newSchema ∧
        updated = { newSchema with
          maxFieldId := max newSchema.maxFieldId update.baseSchema.maxFieldId } := by
  unfold apply at isUpdated
  simp only at isUpdated
  split at isUpdated
  · cases isUpdated
  · split at isUpdated
    · cases isUpdated
    · rcases except_bind_eq_ok.mp isUpdated with ⟨final, isFinal, afterLoop⟩
      rcases except_bind_eq_ok.mp afterLoop with ⟨newSchema, isSchema, isResult⟩
      cases isResult
      exact ⟨final, isFinal, newSchema, isSchema, rfl⟩

end SchemaUpdate

end Deltacat.Storage
