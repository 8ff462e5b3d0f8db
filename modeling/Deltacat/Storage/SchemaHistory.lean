import Deltacat.Library.Procedure
import Deltacat.Library.Run
import Deltacat.Storage.Schema

/-!
# Field identifiers over the history of a schema

A field that is added to a schema gets the identifier after the greatest one
that the schema object knows of. This number is not part of the serialized
schema, and reading a schema back computes it from the fields that are left.
When the field with the greatest identifier is removed and the schema is
written and read, the identifier is given to the next field that is added
(`not_neverReused_run`).

Identifiers are not reused as long as no update removes the field with the
greatest identifier without adding another field (`neverReused_run`). The loop of
`apply` finds fields by name, so the argument follows the names that lead to a
field from one operation to the next (`Held`).
-/

namespace Deltacat.Storage

open Deltacat.Library

variable {types : ArrowTypes}

namespace Field

/-- The identifiers of a list of fields. -/
def ids (fields : List (Field types)) : List ℤ :=
  fields.filterMap (·.id)

theorem mem_ids {fields : List (Field types)} {id : ℤ} :
    id ∈ ids fields ↔ ∃ field ∈ fields, field.id = some id := by
  simp [ids]

@[simp] theorem withDefaults_id (field : Field types) : field.withDefaults.id = field.id := rfl

@[simp] theorem withDefaults_name (field : Field types) :
    field.withDefaults.name = field.name := rfl

/-- `Field.of` only fills in defaults. -/
theorem of_eq_ok {field built : Field types} (isBuilt : Field.of field = .ok built) :
    built = field.withDefaults := by
  unfold Field.of at isBuilt
  cases isValid : field.withDefaults.validate with
  | error error =>
      rw [isValid] at isBuilt
      cases isBuilt
  | ok =>
      rw [isValid] at isBuilt
      cases isBuilt
      rfl

end Field

namespace Schema

/-- Every field has an identifier. -/
def Identified (fields : List (Field types)) : Prop :=
  ∀ field ∈ fields, ∃ id, field.id = some id

theorem populateField_eq_ok {maxFieldId : ℤ} {populated next : List (Field types)}
    {field : Field types} (isNext : populateField maxFieldId populated field = .ok next) :
    ∃ built, next = populated ++ [built] ∧ built.name = field.name ∧
      (∃ id, built.id = some id ∧ id ∉ Field.ids populated) ∧
      (field.id.isSome → built.id = field.id) := by
  unfold populateField at isNext
  rcases except_bind_eq_ok.mp isNext with ⟨dcField, isField, afterField⟩
  have isDefault := Field.of_eq_ok isField
  simp only at afterField
  split at afterField
  · cases afterField
  case isFalse isFresh =>
    rcases except_bind_eq_ok.mp afterField with ⟨built, isBuilt, isResult⟩
    have isBuilt := Field.of_eq_ok isBuilt
    cases isResult
    refine ⟨built, rfl, ?_, ⟨_, by rw [isBuilt]; rfl, ?_⟩, ?_⟩
    · rw [isBuilt]
      rfl
    · simpa [Field.mem_ids] using isFresh
    · intro hasId
      rcases Option.isSome_iff_exists.mp hasId with ⟨id, isId⟩
      rw [isBuilt, isDefault, Field.withDefaults_id, Field.withDefaults_id, isId]
      rfl

/-- A field with its name and its identifier is found among the others, too. -/
def SameKeys (fields others : List (Field types)) : Prop :=
  fields.map (fun field => (field.name, field.id)) = others.map fun field => (field.name, field.id)

theorem SameKeys.ids {fields others : List (Field types)} (same : SameKeys fields others) :
    Field.ids fields = Field.ids others := by
  have mapped (list : List (Field types)) :
      Field.ids list = (list.map fun field => (field.name, field.id)).filterMap (·.2) := by
    simp [Field.ids, List.filterMap_map]
  rw [mapped, same, ← mapped]

theorem SameKeys.exists_mem {fields others : List (Field types)} (same : SameKeys fields others)
    {field : Field types} (fieldMem : field ∈ fields) :
    ∃ other ∈ others, other.name = field.name ∧ other.id = field.id := by
  have isKey : (field.name, field.id) ∈ others.map fun field => (field.name, field.id) := by
    rw [← same]
    exact List.mem_map_of_mem fieldMem
  rcases List.mem_map.mp isKey with ⟨other, otherMem, isSame⟩
  exact ⟨other, otherMem, congrArg Prod.fst isSame, congrArg Prod.snd isSame⟩

theorem populateFields_eq_ok {maxFieldId : ℤ} {populated fields final : List (Field types)}
    (isFinal : fields.foldlM (populateField maxFieldId) populated = .ok final) :
    ∃ built, final = populated ++ built ∧ built.map (·.name) = fields.map (·.name) ∧
      Identified built ∧ (Identified fields → SameKeys built fields) ∧
      ((Field.ids populated).Nodup → (Field.ids final).Nodup) := by
  induction fields generalizing populated with
  | nil =>
      cases isFinal
      exact ⟨[], by simp, rfl, by simp [Identified], fun _ => rfl, by simp⟩
  | cons field fields ih =>
      rw [List.foldlM_cons] at isFinal
      rcases except_bind_eq_ok.mp isFinal with ⟨next, isNext, afterNext⟩
      rcases populateField_eq_ok isNext with ⟨first, rfl, sameName, ⟨id, firstId, isFresh⟩, sameId⟩
      rcases ih afterNext with ⟨rest, rfl, sameNames, restIdentified, sameKeys, stayDistinct⟩
      refine ⟨first :: rest, by simp, by simp [sameName, sameNames], ?_, ?_, ?_⟩
      · intro built builtMem
        rcases List.mem_cons.mp builtMem with rfl | isRest
        · exact ⟨id, firstId⟩
        · exact restIdentified built isRest
      · intro identified
        rcases identified field (by simp) with ⟨oldId, isOld⟩
        have later := sameKeys fun other otherMem => identified other (by simp [otherMem])
        unfold SameKeys at later ⊢
        rw [List.map_cons, List.map_cons, later, sameName, sameId (by simp [isOld])]
      · intro distinct
        apply stayDistinct
        simp only [Field.ids, List.filterMap_append, List.filterMap_cons, firstId,
          List.filterMap_nil]
        exact distinct.append (List.nodup_singleton id) (by simpa using isFresh)

/-- A schema whose greatest identifier is that of one of its fields. -/
structure Proper (schema : Schema types) : Prop where
  identified : Identified schema.fields
  names : (schema.fields.map (·.name)).Nodup
  isGreatest : schema.maxFieldId ∈ Field.ids schema.fields
  atMost : ∀ id ∈ Field.ids schema.fields, id ≤ schema.maxFieldId
  distinct : (Field.ids schema.fields).Nodup

theorem greatestId_spec {fields : List (Field types)} (nonempty : Field.ids fields ≠ []) :
    greatestId fields ∈ Field.ids fields ∧ ∀ id ∈ Field.ids fields, id ≤ greatestId fields := by
  have spec : ∀ (ids : List ℤ) (first : ℤ), ids.foldl max first ∈ first :: ids ∧
      ∀ id ∈ first :: ids, id ≤ ids.foldl max first := by
    intro ids
    induction ids with
    | nil => simp
    | cons id ids ih =>
        intro first
        rcases ih (max first id) with ⟨isMember, isBound⟩
        rw [List.foldl_cons]
        refine ⟨?_, ?_⟩
        · rcases List.mem_cons.mp isMember with isMax | isLater
          · rcases max_choice first id with isFirst | isSecond
            · rw [isMax, isFirst]
              simp
            · rw [isMax, isSecond]
              simp
          · simp [isLater]
        · intro other otherMem
          have maxBound := isBound (max first id) (by simp)
          rcases List.mem_cons.mp otherMem with rfl | isRest
          · exact le_trans (le_max_left _ _) maxBound
          · rcases List.mem_cons.mp isRest with rfl | isLater
            · exact le_trans (le_max_right _ _) maxBound
            · exact isBound other (by simp [isLater])
  unfold greatestId
  change Field.ids fields ≠ [] at nonempty
  unfold Field.ids at *
  split
  case h_1 isEmpty => exact absurd isEmpty nonempty
  case h_2 id ids isCons =>
    rw [isCons]
    exact spec ids id

/-- What `Schema.of` returns. -/
theorem of_eq_ok {arrow : ArrowSchema types} {schemaId : Option ℕ} {schema : Schema types}
    (isSchema : Schema.of arrow schemaId = .ok schema) :
    schema.Proper ∧ (Identified arrow.fields → SameKeys schema.fields arrow.fields) := by
  unfold Schema.of at isSchema
  rcases except_bind_eq_ok.mp isSchema with ⟨_, isValid, afterValid⟩
  rcases except_bind_eq_ok.mp afterValid with ⟨fields, isPopulated, isResult⟩
  cases isResult
  rcases populateFields_eq_ok isPopulated with
    ⟨built, isBuilt, sameNames, identified, sameKeys, distinct⟩
  obtain rfl : built = fields := by simpa using isBuilt.symm
  unfold validateFieldNames at isValid
  split at isValid
  · cases isValid
  case isFalse nonempty =>
    split at isValid
    case isTrue namesNodup =>
      have nodup : (built.map (·.name)).Nodup := by
        rw [sameNames]
        have lowered : arrow.fields.map (fun field => types.lower field.name) =
            (arrow.fields.map (·.name)).map types.lower := by simp
        rw [lowered] at namesNodup
        exact List.Nodup.of_map _ namesNodup
      have hasIds : Field.ids built ≠ [] := by
        cases built with
        | nil =>
            have isNil : arrow.fields = [] := by
              simpa using sameNames.symm
            exact absurd isNil nonempty
        | cons first rest =>
            rcases identified first (by simp) with ⟨id, isId⟩
            simp [Field.ids, isId]
      rcases greatestId_spec hasIds with ⟨isGreatest, atMost⟩
      exact ⟨⟨identified, nodup, isGreatest, atMost, distinct (by simp [Field.ids])⟩, sameKeys⟩
    case isFalse => cases isValid

/-- Reading a schema back gives the same identifiers. -/
theorem deserialize_eq_ok {schema read : Schema types} (identified : Identified schema.fields)
    (isRead : deserialize schema.serialize = .ok read) :
    read.Proper ∧ Field.ids read.fields = Field.ids schema.fields := by
  rcases of_eq_ok isRead with ⟨proper, sameKeys⟩
  exact ⟨proper, (sameKeys identified).ids⟩

end Schema

namespace SchemaUpdate

open SchemaUpdateOperation

variable {update : SchemaUpdate types} {state next : ApplyState types}

/-- The name of the field that an operation is about. -/
def target (update : SchemaUpdate types) : SchemaUpdateOperation types → String
  | .add field => field.name
  | .remove locator => update.getFieldName locator
  | .update locator _ => update.getFieldName locator

/-- An operation that gives a field another name. -/
def Renames (update : SchemaUpdate types) (operation : SchemaUpdateOperation types)
    (newName : String) : Prop :=
  ∃ locator field, operation = .update locator field ∧ field.name = newName ∧
    newName ≠ update.getFieldName locator

/-- Operations that do not get in each other's way, and updates that keep the identifier. -/
structure Tidy (update : SchemaUpdate types) : Prop where
  keepsId : ∀ locator field, .update locator field ∈ update.operations →
    ∃ baseField ∈ update.baseSchema.fields, baseField.name = update.getFieldName locator ∧
      field.id = baseField.id
  oneKind : ∀ left ∈ update.operations, ∀ right ∈ update.operations,
    update.target left = update.target right → left.kind = right.kind
  apart : ∀ left ∈ update.operations, ∀ right ∈ update.operations,
    ¬update.Renames left (update.target right)

/-- The names lead to different fields that are there. -/
structure Indexed (state : ApplyState types) : Prop where
  injective : ∀ left right index, state.fieldNameToIndex left = some index →
    state.fieldNameToIndex right = some index → left = right
  bounded : ∀ name index, state.fieldNameToIndex name = some index → index < state.fields.length

/-- A field that has what is to be kept is there, and only some names lead to it. -/
def Held (state : ApplyState types) (kept : Field types → Prop) (names : String → Prop) : Prop :=
  ∃ index field, state.fields[index]? = some field ∧ kept field ∧
    ∀ name, state.fieldNameToIndex name = some index → names name

section Operations

theorem applyAddField_eq_ok {newField : Field types}
    (isNext : update.applyAddField state newField = .ok next) :
    ∃ field, field.name = newField.name ∧ field.id = some state.nextAvailableFieldId ∧
      next = ⟨state.fields ++ [field],
        Function.update state.fieldNameToIndex newField.name (some state.fields.length),
        state.nextAvailableFieldId + 1⟩ := by
  unfold applyAddField at isNext
  split at isNext
  · cases isNext
  · rcases except_bind_eq_ok.mp isNext with ⟨_, _, afterValid⟩
    rcases except_bind_eq_ok.mp afterValid with ⟨field, isField, isResult⟩
    have isField := Field.of_eq_ok isField
    cases isResult
    refine ⟨field, ?_, ?_, rfl⟩ <;> rw [isField] <;> rfl

theorem applyRemoveField_eq_ok {locator : FieldLocator}
    (isNext : update.applyRemoveField state locator = .ok next) :
    ∃ fieldIndex, state.fieldNameToIndex (update.getFieldName locator) = some fieldIndex ∧
      next = ⟨state.fields.eraseIdx fieldIndex, fun name =>
        if name = update.getFieldName locator then none
        else (state.fieldNameToIndex name).map (shiftIndex fieldIndex),
        state.nextAvailableFieldId⟩ := by
  unfold applyRemoveField at isNext
  split at isNext
  · cases isNext
  case h_2 fieldIndex isIndex =>
    split at isNext
    · cases isNext
    · cases isNext
      exact ⟨fieldIndex, isIndex, rfl⟩

theorem applyUpdateField_eq_ok {locator : FieldLocator} {updatedField : Field types}
    (isNext : update.applyUpdateField state locator updatedField = .ok next) :
    ∃ fieldIndex field, state.fieldNameToIndex (update.getFieldName locator) = some fieldIndex ∧
      field.id = updatedField.id ∧
      next = ⟨state.fields.set fieldIndex field,
        if update.getFieldName locator = updatedField.name then state.fieldNameToIndex
        else Function.update (Function.update state.fieldNameToIndex
          (update.getFieldName locator) none) updatedField.name (some fieldIndex),
        state.nextAvailableFieldId⟩ := by
  unfold applyUpdateField at isNext
  simp only at isNext
  split at isNext
  · cases isNext
  case h_2 fieldIndex isIndex =>
    split at isNext
    · cases isNext
    · rcases except_bind_eq_ok.mp isNext with ⟨_, _, afterValid⟩
      rcases except_bind_eq_ok.mp afterValid with ⟨field, isField, isResult⟩
      have isField := Field.of_eq_ok isField
      cases isResult
      refine ⟨fieldIndex, field, isIndex, ?_, rfl⟩
      rw [isField]
      rfl

theorem shiftIndex_injective {fieldIndex left right : ℕ} (leftOther : left ≠ fieldIndex)
    (rightOther : right ≠ fieldIndex)
    (same : shiftIndex fieldIndex left = shiftIndex fieldIndex right) : left = right := by
  unfold shiftIndex at same
  split at same <;> split at same <;> omega

theorem getElem?_eraseIdx_shiftIndex {fields : List (Field types)} {fieldIndex index : ℕ}
    (isOther : index ≠ fieldIndex) :
    (fields.eraseIdx fieldIndex)[shiftIndex fieldIndex index]? = fields[index]? := by
  unfold shiftIndex
  rw [List.getElem?_eraseIdx]
  split
  · rw [if_neg (by omega)]
    congr 1
    omega
  · rw [if_pos (by omega)]

/-- The names that lead to a field after another one was removed. -/
theorem removed_eq_some {locator : FieldLocator} {fieldIndex index : ℕ} {name : String}
    (indexed : Indexed state)
    (isIndex : state.fieldNameToIndex (update.getFieldName locator) = some fieldIndex)
    (leads : (if name = update.getFieldName locator then none
      else (state.fieldNameToIndex name).map (shiftIndex fieldIndex)) = some index) :
    ∃ oldIndex, state.fieldNameToIndex name = some oldIndex ∧ oldIndex ≠ fieldIndex ∧
      shiftIndex fieldIndex oldIndex = index := by
  split at leads
  · cases leads
  case isFalse isOther =>
    rcases Option.map_eq_some_iff.mp leads with ⟨oldIndex, isOld, isShifted⟩
    refine ⟨oldIndex, isOld, ?_, isShifted⟩
    rintro rfl
    exact isOther (indexed.injective _ _ _ isOld isIndex)

/-- The names that lead to a field after another name was given to one. -/
theorem renamed_eq_some {oldName newName name : String} {fieldIndex index : ℕ}
    (indexed : Indexed state) (isIndex : state.fieldNameToIndex oldName = some fieldIndex)
    (leads : (if oldName = newName then state.fieldNameToIndex
      else Function.update (Function.update state.fieldNameToIndex oldName none) newName
        (some fieldIndex)) name = some index) :
    (index = fieldIndex ∧ name = newName) ∨
      (index ≠ fieldIndex ∧ state.fieldNameToIndex name = some index) := by
  split at leads
  case isTrue sameName =>
    by_cases isField : index = fieldIndex
    · subst isField
      exact Or.inl ⟨rfl, (indexed.injective _ _ _ leads isIndex).trans sameName⟩
    · exact Or.inr ⟨isField, leads⟩
  case isFalse =>
    by_cases isNew : name = newName
    · rw [isNew, Function.update_self] at leads
      exact Or.inl ⟨(Option.some.inj leads).symm, isNew⟩
    · rw [Function.update_of_ne isNew] at leads
      by_cases isOld : name = oldName
      · rw [isOld, Function.update_self] at leads
        cases leads
      · rw [Function.update_of_ne isOld] at leads
        refine Or.inr ⟨?_, leads⟩
        rintro rfl
        exact isOld (indexed.injective _ _ _ leads isIndex)

theorem Indexed.step (indexed : Indexed state) {operation : SchemaUpdateOperation types}
    (isNext : update.applyOperation state operation = .ok next) : Indexed next := by
  cases operation with
  | add newField =>
      rcases applyAddField_eq_ok isNext with ⟨field, _, _, rfl⟩
      have leads : ∀ {name index}, Function.update state.fieldNameToIndex newField.name
          (some state.fields.length) name = some index →
            (name = newField.name ∧ index = state.fields.length) ∨
              state.fieldNameToIndex name = some index := by
        intro name index isLed
        by_cases isNew : name = newField.name
        · rw [isNew, Function.update_self] at isLed
          exact Or.inl ⟨isNew, (Option.some.inj isLed).symm⟩
        · rw [Function.update_of_ne isNew] at isLed
          exact Or.inr isLed
      constructor
      · intro left right index leftLeads rightLeads
        rcases leads leftLeads with ⟨rfl, rfl⟩ | leftOld <;>
          rcases leads rightLeads with ⟨rfl, isLast⟩ | rightOld
        · rfl
        · exact absurd (indexed.bounded _ _ rightOld) (lt_irrefl _)
        · exact absurd (indexed.bounded _ _ leftOld) (by simp [isLast])
        · exact indexed.injective _ _ _ leftOld rightOld
      · intro name index isLed
        rw [List.length_append, List.length_singleton]
        rcases leads isLed with ⟨_, rfl⟩ | isOld
        · exact Nat.lt_succ_self _
        · exact Nat.lt_succ_of_lt (indexed.bounded _ _ isOld)
  | remove locator =>
      rcases applyRemoveField_eq_ok isNext with ⟨fieldIndex, isIndex, rfl⟩
      have isBelow := indexed.bounded _ _ isIndex
      constructor
      · intro left right index leftLeads rightLeads
        rcases removed_eq_some indexed isIndex leftLeads with ⟨leftOld, leftIs, leftOther, isLeft⟩
        rcases removed_eq_some indexed isIndex rightLeads with
          ⟨rightOld, rightIs, rightOther, isRight⟩
        obtain rfl := shiftIndex_injective leftOther rightOther (isLeft.trans isRight.symm)
        exact indexed.injective _ _ _ leftIs rightIs
      · intro name index isLed
        rcases removed_eq_some indexed isIndex isLed with ⟨oldIndex, isOld, isOther, rfl⟩
        have oldBelow := indexed.bounded _ _ isOld
        simp only [List.length_eraseIdx, isBelow, if_true, shiftIndex]
        split <;> omega
  | update locator updatedField =>
      rcases applyUpdateField_eq_ok isNext with ⟨fieldIndex, field, isIndex, _, rfl⟩
      constructor
      · intro left right index leftLeads rightLeads
        rcases renamed_eq_some indexed isIndex leftLeads with
          ⟨leftIs, rfl⟩ | ⟨leftOther, leftOld⟩ <;>
          rcases renamed_eq_some indexed isIndex rightLeads with
            ⟨rightIs, rfl⟩ | ⟨rightOther, rightOld⟩
        · rfl
        · exact absurd leftIs rightOther
        · exact absurd rightIs leftOther
        · exact indexed.injective _ _ _ leftOld rightOld
      · intro name index isLed
        rw [List.length_set]
        rcases renamed_eq_some indexed isIndex isLed with ⟨rfl, _⟩ | ⟨_, isOld⟩
        · exact indexed.bounded _ _ isIndex
        · exact indexed.bounded _ _ isOld

/-- A field stays unless an operation on one of its names removes it or changes what is kept. -/
theorem Held.step {kept : Field types → Prop} {names : String → Prop}
    (held : Held state kept names)
    (indexed : Indexed state) {operation : SchemaUpdateOperation types}
    (isNext : update.applyOperation state operation = .ok next)
    (notRemoved : ∀ locator, operation = .remove locator → ¬names (update.getFieldName locator))
    (keeps : ∀ locator field, operation = .update locator field →
      names (update.getFieldName locator) →
        (∀ changed, changed.id = field.id → kept changed) ∧ names field.name) :
    Held next kept names := by
  rcases held with ⟨index, field, isField, isKept, leadsHere⟩
  have isBelow : index < state.fields.length := (List.getElem?_eq_some_iff.mp isField).1
  cases operation with
  | add newField =>
      rcases applyAddField_eq_ok isNext with ⟨added, _, _, rfl⟩
      refine ⟨index, field, ?_, isKept, ?_⟩
      · rw [List.getElem?_append_left isBelow]
        exact isField
      · intro name isLed
        by_cases isNew : name = newField.name
        · simp only [isNew, Function.update_self, Option.some.injEq] at isLed
          omega
        · simp only [Function.update_of_ne isNew] at isLed
          exact leadsHere name isLed
  | remove locator =>
      rcases applyRemoveField_eq_ok isNext with ⟨fieldIndex, isIndex, rfl⟩
      have isOther : index ≠ fieldIndex := by
        rintro rfl
        exact notRemoved locator rfl (leadsHere _ isIndex)
      refine ⟨shiftIndex fieldIndex index, field, ?_, isKept, ?_⟩
      · rw [getElem?_eraseIdx_shiftIndex isOther]
        exact isField
      · intro name isLed
        rcases removed_eq_some indexed isIndex isLed with ⟨oldIndex, isOld, oldOther, isShifted⟩
        obtain rfl := shiftIndex_injective oldOther isOther isShifted
        exact leadsHere name isOld
  | update locator updatedField =>
      rcases applyUpdateField_eq_ok isNext with ⟨fieldIndex, changed, isIndex, sameId, rfl⟩
      by_cases isChanged : index = fieldIndex
      · subst isChanged
        rcases keeps locator updatedField rfl (leadsHere _ isIndex) with ⟨keepsField, keepsName⟩
        refine ⟨index, changed, ?_, keepsField changed sameId, ?_⟩
        · simp [isBelow]
        · intro name isLed
          rcases renamed_eq_some indexed isIndex isLed with ⟨_, rfl⟩ | ⟨isOther, _⟩
          · exact keepsName
          · exact absurd rfl isOther
      · refine ⟨index, field, ?_, isKept, ?_⟩
        · rw [List.getElem?_set_ne (Ne.symm isChanged)]
          exact isField
        · intro name isLed
          rcases renamed_eq_some indexed isIndex isLed with ⟨isHere, _⟩ | ⟨_, isOld⟩
          · exact absurd isHere isChanged
          · exact leadsHere name isOld

end Operations

section Loop

variable {final : ApplyState types}

/-- The loop of `apply`, from any of its states on. -/
theorem loop_induction {motive : ApplyState types → Prop}
    {operations : List (SchemaUpdateOperation types)} (initially : motive state)
    (preserved : ∀ operation ∈ operations, ∀ state next, motive state →
      update.applyOperation state operation = .ok next → motive next)
    (isFinal : operations.foldlM update.applyOperation state = .ok final) : motive final := by
  induction operations generalizing state with
  | nil =>
      cases isFinal
      exact initially
  | cons operation operations ih =>
      rw [List.foldlM_cons] at isFinal
      rcases except_bind_eq_ok.mp isFinal with ⟨next, isNext, afterNext⟩
      exact ih (preserved operation (by simp) state next initially isNext)
        (fun later laterMem => preserved later (by simp [laterMem])) afterNext

/-- A name that an update gives to a field. -/
def Introduced (update : SchemaUpdate types) (name : String) : Prop :=
  ∃ operation ∈ update.operations, update.Renames operation name

theorem Tidy.not_introduced (tidy : update.Tidy) {operation : SchemaUpdateOperation types}
    (isOperation : operation ∈ update.operations) :
    ¬update.Introduced (update.target operation) := by
  rintro ⟨other, isOther, renames⟩
  exact tidy.apart other isOther operation isOperation renames

/-- A field stays in the schema if no operation removes it under its name. -/
theorem Tidy.held (tidy : update.Tidy) {operations : List (SchemaUpdateOperation types)}
    (areOperations : ∀ operation ∈ operations, operation ∈ update.operations)
    {kept : Field types → Prop} {fieldName : String} (indexed : Indexed state)
    (held : Held state kept fun name => name = fieldName ∨ update.Introduced name)
    (notRemoved : ∀ locator, .remove locator ∈ operations → update.getFieldName locator ≠ fieldName)
    (keeps : ∀ locator field, .update locator field ∈ operations →
      update.getFieldName locator = fieldName → ∀ changed, changed.id = field.id → kept changed)
    (isFinal : operations.foldlM update.applyOperation state = .ok final) :
    ∃ field ∈ final.fields, kept field := by
  have stays : Indexed final ∧
      Held final kept fun name => name = fieldName ∨ update.Introduced name := by
    apply loop_induction (motive := fun state => Indexed state ∧
      Held state kept fun name => name = fieldName ∨ update.Introduced name)
      ⟨indexed, held⟩ _ isFinal
    rintro operation isOperation before after ⟨beforeIndexed, beforeHeld⟩ isNext
    refine ⟨beforeIndexed.step isNext, beforeHeld.step beforeIndexed isNext ?_ ?_⟩
    · rintro locator rfl (isName | isIntroduced)
      · exact notRemoved locator isOperation isName
      · exact tidy.not_introduced (areOperations _ isOperation) isIntroduced
    · rintro locator field rfl (isName | isIntroduced)
      · refine ⟨keeps locator field isOperation isName, ?_⟩
        by_cases sameName : field.name = fieldName
        · exact Or.inl sameName
        · exact Or.inr ⟨_, areOperations _ isOperation, locator, field, rfl, rfl, by
            rw [isName]
            exact sameName⟩
      · exact absurd isIntroduced (tidy.not_introduced (areOperations _ isOperation))
  rcases stays.2 with ⟨index, field, isField, isKept, _⟩
  exact ⟨field, List.mem_of_getElem? isField, isKept⟩

/-- The identifiers that are given to new fields. -/
theorem nextAvailable_le {operations : List (SchemaUpdateOperation types)}
    (isFinal : operations.foldlM update.applyOperation state = .ok final) :
    state.nextAvailableFieldId ≤ final.nextAvailableFieldId := by
  apply loop_induction (motive := fun other =>
    state.nextAvailableFieldId ≤ other.nextAvailableFieldId) (le_refl _) _ isFinal
  intro operation _ before after isBefore isNext
  apply le_trans isBefore
  cases operation with
  | add newField =>
      rcases applyAddField_eq_ok isNext with ⟨_, _, _, rfl⟩
      exact le_of_lt (lt_add_one _)
  | remove locator =>
      rcases applyRemoveField_eq_ok isNext with ⟨_, _, rfl⟩
      exact le_refl _
  | update locator updatedField =>
      rcases applyUpdateField_eq_ok isNext with ⟨_, _, _, _, rfl⟩
      exact le_refl _

/-- The identifiers of the fields come from the base schema or are new. -/
theorem Tidy.ids (tidy : update.Tidy) (proper : update.baseSchema.Proper)
    (isFinal : update.operations.foldlM update.applyOperation ⟨update.baseSchema.fields,
      nameToIndex update.baseSchema.fields, update.baseSchema.maxFieldId + 1⟩ = .ok final) :
    ∀ field ∈ final.fields, ∃ id, field.id = some id ∧
      (id ∈ Field.ids update.baseSchema.fields ∨ update.baseSchema.maxFieldId < id) := by
  have spec : update.baseSchema.maxFieldId < final.nextAvailableFieldId ∧
      ∀ field ∈ final.fields, ∃ id, field.id = some id ∧
        (id ∈ Field.ids update.baseSchema.fields ∨ update.baseSchema.maxFieldId < id) := by
    apply loop_induction (motive := fun state =>
      update.baseSchema.maxFieldId < state.nextAvailableFieldId ∧
      ∀ field ∈ state.fields, ∃ id, field.id = some id ∧
        (id ∈ Field.ids update.baseSchema.fields ∨ update.baseSchema.maxFieldId < id)) _ _ isFinal
    · refine ⟨lt_add_one _, ?_⟩
      intro field fieldMem
      rcases proper.identified field fieldMem with ⟨id, isId⟩
      exact ⟨id, isId, Or.inl (Field.mem_ids.mpr ⟨field, fieldMem, isId⟩)⟩
    · rintro operation isOperation before after ⟨isNew, beforeIds⟩ isNext
      cases operation with
      | add newField =>
          rcases applyAddField_eq_ok isNext with ⟨added, _, addedId, rfl⟩
          refine ⟨lt_trans isNew (lt_add_one _), ?_⟩
          intro field fieldMem
          rcases List.mem_append.mp fieldMem with isOld | isAdded
          · exact beforeIds field isOld
          · obtain rfl := List.mem_singleton.mp isAdded
            exact ⟨_, addedId, Or.inr isNew⟩
      | remove locator =>
          rcases applyRemoveField_eq_ok isNext with ⟨fieldIndex, _, rfl⟩
          refine ⟨isNew, ?_⟩
          intro field fieldMem
          exact beforeIds field (List.mem_of_mem_eraseIdx fieldMem)
      | update locator updatedField =>
          rcases applyUpdateField_eq_ok isNext with ⟨fieldIndex, changed, _, sameId, rfl⟩
          refine ⟨isNew, ?_⟩
          intro field fieldMem
          rcases List.mem_or_eq_of_mem_set fieldMem with isOld | rfl
          · exact beforeIds field isOld
          · rcases tidy.keepsId locator updatedField isOperation with
              ⟨baseField, baseMem, _, keepsId⟩
            rcases proper.identified baseField baseMem with ⟨id, isId⟩
            exact ⟨id, sameId.trans (keepsId.trans isId),
              Or.inl (Field.mem_ids.mpr ⟨baseField, baseMem, isId⟩)⟩
  exact spec.2

theorem nameToIndex_eq_some {fields : List (Field types)} {name : String} {index : ℕ}
    (leads : nameToIndex fields name = some index) :
    ∃ field, fields[index]? = some field ∧ field.name = name := by
  induction fields generalizing index with
  | nil => cases leads
  | cons field fields ih =>
      unfold nameToIndex at leads
      split at leads
      case h_1 later isLater =>
        cases leads
        rcases ih isLater with ⟨found, isFound, isName⟩
        exact ⟨found, by simpa using isFound, isName⟩
      case h_2 =>
        split at leads
        case isTrue isName =>
          cases leads
          exact ⟨field, rfl, isName⟩
        case isFalse => cases leads

theorem indexed_start (fields : List (Field types)) (nextAvailableFieldId : ℤ) :
    Indexed ⟨fields, nameToIndex fields, nextAvailableFieldId⟩ where
  injective := by
    intro left right index leftLeads rightLeads
    rcases nameToIndex_eq_some leftLeads with ⟨leftField, leftIs, rfl⟩
    rcases nameToIndex_eq_some rightLeads with ⟨rightField, rightIs, rfl⟩
    rw [leftIs] at rightIs
    cases rightIs
    rfl
  bounded := by
    intro name index leads
    rcases nameToIndex_eq_some leads with ⟨field, isField, _⟩
    exact (List.getElem?_eq_some_iff.mp isField).1

/-- The operations add a field, or do not remove the one with the greatest identifier. -/
def KeepsGreatest (update : SchemaUpdate types) : Prop :=
  (∃ newField, .add newField ∈ update.operations) ∨
    ∀ field ∈ update.baseSchema.fields, field.id = some update.baseSchema.maxFieldId →
      ∀ locator, .remove locator ∈ update.operations → update.getFieldName locator ≠ field.name

/-- A field that is added has a new identifier, and keeps it and its name to the end. -/
theorem Tidy.added (tidy : update.Tidy) {newField : Field types}
    (isAdded : .add newField ∈ update.operations)
    (isFinal : update.operations.foldlM update.applyOperation ⟨update.baseSchema.fields,
      nameToIndex update.baseSchema.fields, update.baseSchema.maxFieldId + 1⟩ = .ok final) :
    ∃ field ∈ final.fields, field.name = newField.name ∧
      ∃ id, field.id = some id ∧ update.baseSchema.maxFieldId < id := by
  have startIndexed := indexed_start update.baseSchema.fields (update.baseSchema.maxFieldId + 1)
  rcases List.append_of_mem isAdded with ⟨before, after, isSplit⟩
  rw [isSplit, List.foldlM_append] at isFinal
  rcases except_bind_eq_ok.mp isFinal with ⟨middle, isMiddle, afterMiddle⟩
  rw [List.foldlM_cons] at afterMiddle
  rcases except_bind_eq_ok.mp afterMiddle with ⟨next, isNext, isLast⟩
  have middleIndexed : Indexed middle :=
    loop_induction startIndexed (fun _ _ _ _ indexed isStep => indexed.step isStep) isMiddle
  have isNew : update.baseSchema.maxFieldId < middle.nextAvailableFieldId :=
    lt_of_lt_of_le (lt_add_one _) (nextAvailable_le isMiddle)
  have nextIndexed := middleIndexed.step isNext
  rcases applyAddField_eq_ok isNext with ⟨field, sameName, isId, rfl⟩
  have held : Held ⟨middle.fields ++ [field], Function.update middle.fieldNameToIndex
      newField.name (some middle.fields.length), middle.nextAvailableFieldId + 1⟩
      (fun field => field.name = newField.name ∧
        ∃ id, field.id = some id ∧ update.baseSchema.maxFieldId < id)
      (fun name => name = newField.name ∨ update.Introduced name) := by
    refine ⟨middle.fields.length, field, by simp, ⟨sameName, _, isId, isNew⟩, ?_⟩
    intro name leads
    by_cases isName : name = newField.name
    · exact Or.inl isName
    · simp only [Function.update_of_ne isName] at leads
      exact absurd (middleIndexed.bounded _ _ leads) (lt_irrefl _)
  have areOperations : ∀ operation ∈ after, operation ∈ update.operations := by
    intro operation operationMem
    simp [isSplit, operationMem]
  -- No later operation is on the new field, since an operation on its name adds a field.
  apply tidy.held areOperations nextIndexed held _ _ isLast
  · intro locator isOperation sameName
    cases tidy.oneKind _ (areOperations _ isOperation) _ isAdded sameName
  · intro locator other isOperation sameName
    cases tidy.oneKind _ (areOperations _ isOperation) _ isAdded sameName

theorem Tidy.keepsGreatest (tidy : update.Tidy) (proper : update.baseSchema.Proper)
    (keepsGreatest : update.KeepsGreatest)
    (isFinal : update.operations.foldlM update.applyOperation ⟨update.baseSchema.fields,
      nameToIndex update.baseSchema.fields, update.baseSchema.maxFieldId + 1⟩ = .ok final) :
    ∃ field ∈ final.fields, ∃ id, field.id = some id ∧ update.baseSchema.maxFieldId ≤ id := by
  have startIndexed := indexed_start update.baseSchema.fields (update.baseSchema.maxFieldId + 1)
  rcases keepsGreatest with ⟨newField, isAdded⟩ | notRemoved
  · rcases tidy.added isAdded isFinal with ⟨kept, keptMem, _, id, keptId, isNew⟩
    exact ⟨kept, keptMem, id, keptId, isNew.le⟩
  · rcases Field.mem_ids.mp proper.isGreatest with ⟨greatest, greatestMem, isGreatest⟩
    have held : Held ⟨update.baseSchema.fields, nameToIndex update.baseSchema.fields,
        update.baseSchema.maxFieldId + 1⟩
        (fun field => field.id = some update.baseSchema.maxFieldId)
        (fun name => name = greatest.name ∨ update.Introduced name) := by
      rcases List.getElem?_of_mem greatestMem with ⟨index, isIndex⟩
      refine ⟨index, greatest, isIndex, isGreatest, ?_⟩
      intro name leads
      rcases nameToIndex_eq_some leads with ⟨field, isField, rfl⟩
      rw [isIndex] at isField
      cases isField
      exact Or.inl rfl
    have keeps : ∀ locator field, .update locator field ∈ update.operations →
        update.getFieldName locator = greatest.name → ∀ changed : Field types,
          changed.id = field.id → changed.id = some update.baseSchema.maxFieldId := by
      intro locator field isOperation sameName changed sameId
      rcases tidy.keepsId locator field isOperation with ⟨baseField, baseMem, isName, keepsId⟩
      have isSame : baseField = greatest :=
        List.inj_on_of_nodup_map proper.names baseMem greatestMem (isName.trans sameName)
      rw [sameId, keepsId, isSame, isGreatest]
    rcases tidy.held (fun _ => id) startIndexed held (notRemoved greatest greatestMem isGreatest)
      keeps isFinal with ⟨kept, keptMem, keptId⟩
    exact ⟨kept, keptMem, _, keptId, le_refl _⟩

/-- What a tidy update does to the identifiers of a schema. -/
structure Identifies (update : SchemaUpdate types) (updated : Schema types) : Prop where
  identified : Schema.Identified updated.fields
  distinct : (Field.ids updated.fields).Nodup
  fromBase : ∀ id ∈ Field.ids updated.fields,
    id ∈ Field.ids update.baseSchema.fields ∨ update.baseSchema.maxFieldId < id
  added : ∀ newField, .add newField ∈ update.operations → ∀ field ∈ updated.fields,
    field.name = newField.name → ∀ id, field.id = some id → update.baseSchema.maxFieldId < id
  keeps : update.KeepsGreatest →
    ∃ id ∈ Field.ids updated.fields, update.baseSchema.maxFieldId ≤ id

theorem Tidy.apply_eq_ok (tidy : update.Tidy) (proper : update.baseSchema.Proper)
    {updated : Schema types} (isUpdated : update.apply = .ok updated) :
    update.Identifies updated := by
  unfold apply at isUpdated
  simp only at isUpdated
  split at isUpdated
  · cases isUpdated
  split at isUpdated
  · cases isUpdated
  · rcases except_bind_eq_ok.mp isUpdated with ⟨final, isFinal, afterFinal⟩
    rcases except_bind_eq_ok.mp afterFinal with ⟨schema, isSchema, isResult⟩
    cases isResult
    rcases Schema.of_eq_ok isSchema with ⟨schemaProper, sameKeys⟩
    have finalIds := tidy.ids proper isFinal
    have identified : Schema.Identified final.fields := by
      intro field fieldMem
      rcases finalIds field fieldMem with ⟨id, isId, _⟩
      exact ⟨id, isId⟩
    have sameKeys : Schema.SameKeys schema.fields final.fields := sameKeys identified
    have names : (final.fields.map (·.name)).Nodup := by
      have mapped (list : List (Field types)) : list.map (·.name) =
          (list.map fun field => (field.name, field.id)).map Prod.fst := by
        simp
      rw [mapped, ← sameKeys, ← mapped]
      exact schemaProper.names
    refine ⟨schemaProper.identified, schemaProper.distinct, ?_, ?_, ?_⟩
    · simp only [sameKeys.ids]
      intro id idMem
      rcases Field.mem_ids.mp idMem with ⟨field, fieldMem, isId⟩
      rcases finalIds field fieldMem with ⟨sameId, isSame, fromBase⟩
      rw [isId] at isSame
      cases isSame
      exact fromBase
    · intro newField isAdded field fieldMem isName id isId
      rcases sameKeys.exists_mem fieldMem with ⟨other, otherMem, otherName, otherId⟩
      rcases tidy.added isAdded isFinal with ⟨added, addedMem, addedName, newId, hasNew, isNew⟩
      have isSame : other = added :=
        List.inj_on_of_nodup_map names otherMem addedMem
          (otherName.trans (isName.trans addedName.symm))
      rw [← otherId, isSame, hasNew] at isId
      cases isId
      exact isNew
    · intro keepsGreatest
      simp only [sameKeys.ids]
      rcases tidy.keepsGreatest proper keepsGreatest isFinal with
        ⟨field, fieldMem, id, isId, isLarge⟩
      exact ⟨id, Field.mem_ids.mpr ⟨field, fieldMem, isId⟩, isLarge⟩

end Loop

end SchemaUpdate

namespace FieldRequest

open SchemaUpdateOperation

def fieldLocator : FieldRequest types → Option FieldLocator
  | .add _ => none
  | .remove locator | .rename locator _ | .updateType locator _ | .updateDoc locator _
  | .updateNullability locator _ | .updateConsistencyType locator _
  | .updateFutureDefault locator _ => some locator

def kind : FieldRequest types → Kind
  | .add _ => .add
  | .remove _ => .remove
  | _ => .update

/-- The name of the field that a request is about. -/
def target (schema : Schema types) : FieldRequest types → String
  | .add newField => newField.name
  | .remove locator | .rename locator _ | .updateType locator _ | .updateDoc locator _
  | .updateNullability locator _ | .updateConsistencyType locator _
  | .updateFutureDefault locator _ => SchemaUpdate.getFieldName ⟨schema, false, []⟩ locator

end FieldRequest

namespace SchemaUpdate

open SchemaUpdateOperation

/--
Requests of one update that do not get in each other's way: each field is the
target of one kind of requests, a new name is not the target of another request,
and locators that are taken to be equal belong to the same field.
-/
structure Orderly (schema : Schema types) (requests : List (FieldRequest types)) : Prop where
  oneKind : ∀ left ∈ requests, ∀ right ∈ requests,
    left.target schema = right.target schema → left.kind = right.kind
  apart : ∀ locator newName, .rename locator newName ∈ requests →
    newName ≠ getFieldName ⟨schema, false, []⟩ locator →
      ∀ request ∈ requests, request.target schema ≠ newName
  sameField : ∀ left ∈ requests, ∀ right ∈ requests, right.kind = .update →
    fieldLocatorsMatch left.fieldLocator right.fieldLocator →
      left.target schema = right.target schema

/-- Where an operation comes from. -/
def BuiltFrom (schema : Schema types) (requests : List (FieldRequest types)) :
    SchemaUpdateOperation types → Prop
  | .add newField => .add newField ∈ requests
  | .remove locator => .remove locator ∈ requests
  | .update locator field =>
      (∃ request ∈ requests, request.kind = .update ∧ request.fieldLocator = some locator) ∧
      ∃ baseField, schema.fields.find?
          (·.name = getFieldName ⟨schema, false, []⟩ locator) = some baseField ∧
        field.id = baseField.id ∧
        (field.name = getFieldName ⟨schema, false, []⟩ locator ∨
          ∃ other, .rename other field.name ∈ requests ∧
            getFieldName ⟨schema, false, []⟩ other = getFieldName ⟨schema, false, []⟩ locator)

section Requests

variable {schema : Schema types} {allowed : Bool} {update next : SchemaUpdate types}
  {requests : List (FieldRequest types)}

theorem target_of_locator (schema : Schema types) {request : FieldRequest types}
    {locator : FieldLocator} (isLocator : request.fieldLocator = some locator) :
    request.target schema = getFieldName ⟨schema, false, []⟩ locator := by
  cases request <;> cases isLocator <;> rfl

/-- A request that changes a field appends a changed copy of it. -/
theorem request_update {request : FieldRequest types} (isUpdate : request.kind = .update)
    (isNext : update.request request = .ok next) :
    ∃ locator existing changed, request.fieldLocator = some locator ∧
      update.getExistingField locator = .ok existing ∧
      next = { update with operations := update.operations ++ [.update locator changed] } ∧
      changed.id = existing.id ∧
      (changed.name = existing.name ∨ request = .rename locator changed.name) := by
  have byChange : ∀ {locator : FieldLocator} {change : Field types → Field types},
      update.updateField locator change = .ok next →
      ∃ existing, update.getExistingField locator = .ok existing ∧
        next = { update with
          operations := update.operations ++ [.update locator (change existing)] } := by
    intro locator change isChanged
    rcases except_bind_eq_ok.mp isChanged with ⟨existing, isExisting, isResult⟩
    cases isResult
    exact ⟨existing, isExisting, rfl⟩
  cases request with
  | add newField => cases isUpdate
  | remove locator => cases isUpdate
  | rename locator newName =>
      rcases byChange isNext with ⟨existing, isExisting, isResult⟩
      exact ⟨locator, existing, _, rfl, isExisting, isResult, rfl, Or.inr rfl⟩
  | updateType locator newType =>
      rcases byChange isNext with ⟨existing, isExisting, isResult⟩
      exact ⟨locator, existing, _, rfl, isExisting, isResult, rfl, Or.inl rfl⟩
  | updateDoc locator newDoc =>
      rcases byChange isNext with ⟨existing, isExisting, isResult⟩
      exact ⟨locator, existing, _, rfl, isExisting, isResult, rfl, Or.inl rfl⟩
  | updateNullability locator nullable =>
      rcases byChange isNext with ⟨existing, isExisting, isResult⟩
      exact ⟨locator, existing, _, rfl, isExisting, isResult, rfl, Or.inl rfl⟩
  | updateConsistencyType locator consistencyType =>
      rcases byChange isNext with ⟨existing, isExisting, isResult⟩
      exact ⟨locator, existing, _, rfl, isExisting, isResult, rfl, Or.inl rfl⟩
  | updateFutureDefault locator futureDefault =>
      rcases except_bind_eq_ok.mp isNext with ⟨_, _, afterExisting⟩
      rcases except_bind_eq_ok.mp afterExisting with ⟨_, _, isChanged⟩
      rcases byChange isChanged with ⟨existing, isExisting, isResult⟩
      exact ⟨locator, existing, _, rfl, isExisting, isResult, rfl, Or.inl rfl⟩

/-- The field that a request changes is the one of the base schema, or a changed copy of it. -/
theorem getExistingField_eq_ok (orderly : Orderly schema requests)
    (isBaseSchema : update.baseSchema = schema)
    (built : ∀ operation ∈ update.operations, BuiltFrom schema requests operation)
    {request : FieldRequest types} (isRequest : request ∈ requests)
    (isUpdate : request.kind = .update) {locator : FieldLocator}
    (isLocator : request.fieldLocator = some locator) {existing : Field types}
    (isExisting : update.getExistingField locator = .ok existing) :
    ∃ baseField, schema.fields.find?
        (·.name = getFieldName ⟨schema, false, []⟩ locator) = some baseField ∧
      existing.id = baseField.id ∧
      (existing.name = getFieldName ⟨schema, false, []⟩ locator ∨
        ∃ other, .rename other existing.name ∈ requests ∧
          getFieldName ⟨schema, false, []⟩ other = getFieldName ⟨schema, false, []⟩ locator) := by
  have sameName : update.getFieldName locator = getFieldName ⟨schema, false, []⟩ locator := by
    subst isBaseSchema
    cases locator <;> rfl
  have isTarget := target_of_locator schema isLocator
  unfold getExistingField at isExisting
  rw [sameName, isBaseSchema] at isExisting
  split at isExisting
  · cases isExisting
  case h_2 baseField isBase =>
    refine ⟨baseField, isBase, ?_⟩
    split at isExisting
    · cases isExisting
      exact ⟨rfl, Or.inl (by simpa using List.find?_some isBase)⟩
    case h_2 operation isLast =>
      have isPending := List.mem_of_getLast? isLast
      rcases List.mem_filter.mp isPending with ⟨operationMem, isMatch⟩
      have isBuilt := built operation operationMem
      -- A pending operation on an equal locator is an update of the same field.
      cases operation with
      | add newField =>
          have sameTarget := orderly.sameField _ isBuilt request isRequest isUpdate
            (by rw [isLocator]; exact isMatch)
          have sameKind := orderly.oneKind _ isBuilt request isRequest sameTarget
          rw [isUpdate] at sameKind
          cases sameKind
      | remove other => cases isExisting
      | update other field =>
          cases isExisting
          rcases isBuilt with
            ⟨⟨earlier, isEarlier, _, earlierLocator⟩, earlierBase, isEarlierBase, isId, isName⟩
          have sameTarget := orderly.sameField earlier isEarlier request isRequest isUpdate
            (by rw [isLocator, earlierLocator]; exact isMatch)
          rw [target_of_locator schema earlierLocator, isTarget] at sameTarget
          rw [sameTarget] at isEarlierBase isName
          rw [isBase] at isEarlierBase
          cases isEarlierBase
          exact ⟨isId, isName⟩

theorem builtFrom_request (orderly : Orderly schema requests)
    (isBaseSchema : update.baseSchema = schema)
    (built : ∀ operation ∈ update.operations, BuiltFrom schema requests operation)
    {request : FieldRequest types} (isRequest : request ∈ requests)
    (isNext : update.request request = .ok next) :
    next.baseSchema = schema ∧
      ∀ operation ∈ next.operations, BuiltFrom schema requests operation := by
  have appended : ∀ {operation : SchemaUpdateOperation types},
      BuiltFrom schema requests operation →
      ∀ other ∈ update.operations ++ [operation], BuiltFrom schema requests other := by
    intro operation isBuilt other otherMem
    rcases List.mem_append.mp otherMem with isOld | isNew
    · exact built other isOld
    · obtain rfl := List.mem_singleton.mp isNew
      exact isBuilt
  cases isKind : request.kind with
  | add =>
      cases request with
      | add newField =>
          cases isNext
          exact ⟨isBaseSchema, appended isRequest⟩
      | _ => cases isKind
  | remove =>
      cases request with
      | remove locator =>
          cases isNext
          exact ⟨isBaseSchema, appended isRequest⟩
      | _ => cases isKind
  | update =>
      rcases request_update isKind isNext with
        ⟨locator, existing, changed, isLocator, isExisting, rfl, sameId, isName⟩
      rcases getExistingField_eq_ok orderly isBaseSchema built isRequest isKind isLocator
        isExisting with ⟨baseField, isBase, isId, existingName⟩
      refine ⟨isBaseSchema, appended ⟨⟨request, isRequest, isKind, isLocator⟩, baseField, isBase,
        sameId.trans isId, ?_⟩⟩
      rcases isName with sameName | rfl
      · rw [sameName]
        exact existingName
      · exact Or.inr ⟨locator, isRequest, rfl⟩

/-- The operations of an update that is built from requests. -/
structure Built (schema : Schema types) (requests done : List (FieldRequest types))
    (update : SchemaUpdate types) : Prop where
  isBase : update.baseSchema = schema
  built : ∀ operation ∈ update.operations, BuiltFrom schema requests operation
  added : ∀ newField, .add newField ∈ done → .add newField ∈ update.operations

theorem Built.request (orderly : Orderly schema requests) {done : List (FieldRequest types)}
    (built : Built schema requests done update) {request : FieldRequest types}
    (isRequest : request ∈ requests) (isNext : update.request request = .ok next) :
    Built schema requests (done ++ [request]) next := by
  rcases builtFrom_request orderly built.isBase built.built isRequest isNext with
    ⟨isBase, nextBuilt⟩
  refine ⟨isBase, nextBuilt, ?_⟩
  have grows : ∀ operation ∈ update.operations, operation ∈ next.operations := by
    intro operation operationMem
    cases isKind : request.kind with
    | update =>
        rcases request_update isKind isNext with ⟨_, _, _, _, _, rfl, _⟩
        exact List.mem_append_left _ operationMem
    | _ =>
        cases request <;> cases isKind
        cases isNext
        exact List.mem_append_left _ operationMem
  intro newField isAdded
  rcases List.mem_append.mp isAdded with isOld | isNew
  · exact grows _ (built.added newField isOld)
  · obtain rfl := List.mem_singleton.mp isNew
    cases isNext
    exact List.mem_append_right _ (List.mem_singleton_self _)

theorem Built.all (orderly : Orderly schema requests)
    {done later : List (FieldRequest types)} (built : Built schema requests done update)
    (areRequests : later ⊆ requests)
    (isNext : later.foldlM SchemaUpdate.request update = .ok next) :
    Built schema requests (done ++ later) next := by
  induction later generalizing done update with
  | nil =>
      cases isNext
      rw [List.append_nil]
      exact built
  | cons request later ih =>
      rw [List.foldlM_cons] at isNext
      rcases except_bind_eq_ok.mp isNext with ⟨middle, isMiddle, afterMiddle⟩
      rw [← List.singleton_append, ← List.append_assoc]
      exact ih (built.request orderly (areRequests (by simp)) isMiddle)
        (fun other otherMem => areRequests (by simp [otherMem])) afterMiddle

/-- The operations that come from orderly requests are tidy. -/
theorem Built.tidy (orderly : Orderly schema requests) {done : List (FieldRequest types)}
    (built : Built schema requests done update) : update.Tidy := by
  have sameName : ∀ locator, update.getFieldName locator =
      getFieldName ⟨schema, false, []⟩ locator := by
    intro locator
    rw [← built.isBase]
    cases locator <;> rfl
  -- Every operation has a request of the same kind and with the same target.
  have isRequested : ∀ operation ∈ update.operations, ∃ request ∈ requests,
      request.kind = operation.kind ∧ request.target schema = update.target operation := by
    intro operation operationMem
    have isBuilt := built.built operation operationMem
    cases operation with
    | add newField => exact ⟨_, isBuilt, rfl, rfl⟩
    | remove locator => exact ⟨_, isBuilt, rfl, (sameName locator).symm⟩
    | update locator field =>
        rcases isBuilt with ⟨⟨request, isRequest, isUpdate, isLocator⟩, _⟩
        exact ⟨request, isRequest, isUpdate,
          (target_of_locator schema isLocator).trans (sameName locator).symm⟩
  constructor
  · intro locator field isOperation
    rcases built.built _ isOperation with ⟨_, baseField, isBase, isId, _⟩
    rw [built.isBase, sameName]
    exact ⟨baseField, List.mem_of_find?_eq_some isBase, by simpa using List.find?_some isBase, isId⟩
  · intro left leftMem right rightMem sameTarget
    rcases isRequested left leftMem with ⟨leftRequest, leftIs, leftKind, leftTarget⟩
    rcases isRequested right rightMem with ⟨rightRequest, rightIs, rightKind, rightTarget⟩
    rw [← leftKind, ← rightKind]
    exact orderly.oneKind _ leftIs _ rightIs (leftTarget.trans (sameTarget.trans rightTarget.symm))
  · rintro left leftMem right rightMem ⟨locator, field, rfl, isName, isRenamed⟩
    rcases isRequested right rightMem with ⟨request, isRequest, _, isTarget⟩
    rcases built.built _ leftMem with ⟨_, _, _, _, keptName | ⟨other, isRename, sameTarget⟩⟩
    · rw [← isName, keptName, sameName] at isRenamed
      exact isRenamed rfl
    · rw [isName] at isRename
      refine orderly.apart other _ isRename ?_ request isRequest isTarget
      rw [sameTarget, ← sameName]
      exact isRenamed

end Requests

end SchemaUpdate

/-- A schema update that is applied, written to the catalog, and read back. -/
structure SchemaEvent (types : ArrowTypes) where
  allowIncompatibleChanges : Bool
  requests : List (FieldRequest types)

/-- The schema as it was read last, and the identifiers that fields have had so far. -/
structure SchemaHistory (types : ArrowTypes) where
  schema : Schema types
  usedIds : List ℤ

namespace SchemaHistory

open SchemaUpdate

variable {history next : SchemaHistory types}

/-- A successful update. -/
def Step (history : SchemaHistory types) (event : SchemaEvent types)
    (next : SchemaHistory types) : Prop :=
  ∃ updated, evolve history.schema event.allowIncompatibleChanges event.requests = .ok updated ∧
    Schema.deserialize updated.serialize = .ok next.schema ∧
    next.usedIds = history.usedIds ++ Field.ids updated.fields

/-- A schema that was created and read back. -/
def Starts (history : SchemaHistory types) : Prop :=
  ∃ arrow schemaId created, Schema.of arrow schemaId = .ok created ∧
    Schema.deserialize created.serialize = .ok history.schema ∧
    history.usedIds = Field.ids created.fields

/--
Every field that was added has an identifier that no field ever had, also not one
that was removed together with it. No two fields share an identifier, and none
comes back that had left the schema before.
-/
structure GivesNewIds (history : SchemaHistory types) (event : SchemaEvent types)
    (updated : Schema types) : Prop where
  added : ∀ newField, .add newField ∈ event.requests → ∀ field ∈ updated.fields,
    field.name = newField.name → ∀ id, field.id = some id → id ∉ history.usedIds
  distinct : (Field.ids updated.fields).Nodup
  gone : ∀ id ∈ Field.ids updated.fields,
    id ∉ Field.ids history.schema.fields → id ∉ history.usedIds

/-- The next update, if it succeeds, gives no identifier to a new field that a field ever had. -/
def NeverReused (history : SchemaHistory types) (event : SchemaEvent types) : Prop :=
  ∀ updated,
    evolve history.schema event.allowIncompatibleChanges event.requests = .ok updated →
      history.GivesNewIds event updated

/-- The update adds a field, or does not remove the one with the greatest identifier. -/
structure KeepsGreatest (history : SchemaHistory types) (event : SchemaEvent types) : Prop where
  orderly : Orderly history.schema event.requests
  keeps : (∃ newField, .add newField ∈ event.requests) ∨
    ∀ field ∈ history.schema.fields, field.id = some history.schema.maxFieldId →
      ∀ locator, .remove locator ∈ event.requests →
        getFieldName ⟨history.schema, false, []⟩ locator ≠ field.name

/-- The invariant of a run. -/
structure Invariant (history : SchemaHistory types) : Prop where
  proper : history.schema.Proper
  atMost : ∀ id ∈ history.usedIds, id ≤ history.schema.maxFieldId

theorem Invariant.start (starts : history.Starts) : history.Invariant := by
  rcases starts with ⟨arrow, schemaId, created, isCreated, isRead, isUsed⟩
  rcases Schema.of_eq_ok isCreated with ⟨createdProper, _⟩
  rcases Schema.deserialize_eq_ok createdProper.identified isRead with ⟨proper, sameIds⟩
  refine ⟨proper, ?_⟩
  rw [isUsed, ← sameIds]
  exact proper.atMost

/-- What an update that is built from orderly requests does to the identifiers. -/
theorem evolve_eq_ok {event : SchemaEvent types} (proper : history.schema.Proper)
    (orderly : Orderly history.schema event.requests) {updated : Schema types}
    (isUpdated :
      evolve history.schema event.allowIncompatibleChanges event.requests = .ok updated) :
    ∃ update : SchemaUpdate types, update.baseSchema = history.schema ∧
      update.Identifies updated ∧
      (∀ newField, .add newField ∈ event.requests → .add newField ∈ update.operations) ∧
      (history.KeepsGreatest event → update.KeepsGreatest) := by
  rcases except_bind_eq_ok.mp isUpdated with ⟨update, isUpdate, isApplied⟩
  have start : Built history.schema event.requests []
      ⟨history.schema, event.allowIncompatibleChanges, []⟩ := ⟨rfl, by simp, by simp⟩
  have built := start.all orderly (List.Subset.refl _) isUpdate
  have updateProper : update.baseSchema.Proper := by
    rw [built.isBase]
    exact proper
  refine ⟨update, built.isBase, (built.tidy orderly).apply_eq_ok updateProper isApplied,
    built.added, ?_⟩
  intro keepsGreatest
  unfold SchemaUpdate.KeepsGreatest
  rw [built.isBase]
  rcases keepsGreatest.keeps with ⟨newField, isAdded⟩ | notRemoved
  · exact Or.inl ⟨newField, built.added newField isAdded⟩
  · refine Or.inr ?_
    intro field fieldMem isGreatest locator isRemove
    have sameName : update.getFieldName locator =
        getFieldName ⟨history.schema, false, []⟩ locator := by
      rw [← built.isBase]
      cases locator <;> rfl
    rw [sameName]
    exact notRemoved field fieldMem isGreatest locator (built.built _ isRemove)

theorem Invariant.step (invariant : history.Invariant) {event : SchemaEvent types}
    (keepsGreatest : history.KeepsGreatest event) (stepped : history.Step event next) :
    next.Invariant := by
  rcases stepped with ⟨updated, isUpdated, isRead, isUsed⟩
  rcases evolve_eq_ok invariant.proper keepsGreatest.orderly isUpdated with
    ⟨update, isBase, identifies, -, keeps⟩
  rcases identifies.keeps (keeps keepsGreatest) with ⟨kept, keptMem, isLarge⟩
  rw [isBase] at isLarge
  rcases Schema.deserialize_eq_ok identifies.identified isRead with ⟨proper, sameIds⟩
  refine ⟨proper, ?_⟩
  have grows : history.schema.maxFieldId ≤ next.schema.maxFieldId :=
    le_trans isLarge (proper.atMost kept (by rw [sameIds]; exact keptMem))
  rw [isUsed]
  intro id idMem
  rcases List.mem_append.mp idMem with isOld | isNew
  · exact le_trans (invariant.atMost id isOld) grows
  · exact proper.atMost id (by rw [sameIds]; exact isNew)

/--
In every history whose updates keep the field with the greatest identifier, or
add another one, no identifier is reused.
-/
theorem neverReused_run {start : SchemaHistory types} (starts : start.Starts)
    {events : List (SchemaEvent types)}
    (run : Run (Guarded KeepsGreatest Step) start events history) {event : SchemaEvent types}
    (orderly : Orderly history.schema event.requests) : history.NeverReused event := by
  have invariant : history.Invariant :=
    run.invariant (Invariant.start starts) fun _ _ _ before stepped =>
      before.step stepped.1 stepped.2
  intro updated isUpdated
  rcases evolve_eq_ok invariant.proper orderly isUpdated with
    ⟨update, isBase, identifies, areAdded, -⟩
  refine ⟨?_, identifies.distinct, ?_⟩
  · intro newField isAdded field fieldMem isName id isId isUsed
    have isLarger :=
      identifies.added newField (areAdded newField isAdded) field fieldMem isName id isId
    rw [isBase] at isLarger
    exact absurd (invariant.atMost id isUsed) (not_le.mpr isLarger)
  · intro id idMem isNew isUsed
    rcases identifies.fromBase id idMem with isOld | isLarger
    · rw [isBase] at isOld
      exact isNew isOld
    · rw [isBase] at isLarger
      exact absurd (invariant.atMost id isUsed) (not_le.mpr isLarger)

section Examples

/-- Types of which all are integers. -/
def integerTypes : ArrowTypes where
  DataType := Unit
  Default := ℤ
  MergeOrder := Unit
  isPrimitive := fun _ => true
  isString := fun _ => false
  isFloating := fun _ => false
  isInteger := fun _ => true
  isDate := fun _ => false
  hasScalar := fun _ _ => true
  isCompatible := fun _ _ => true
  lower := String.toLower

def integerField (name : String) : Field integerTypes where
  name := name
  type := ()
  nullable := true
  id := none
  isMergeKey := false
  mergeOrder := none
  isEventTime := false
  doc := none
  pastDefault := none
  futureDefault := none
  consistencyType := none

/-- The history after a schema with two fields was created. -/
def created : Option (SchemaHistory integerTypes) := do
  let schema ← (Schema.of ⟨[integerField "a", integerField "b"], none⟩ none).toOption
  let read ← (Schema.deserialize schema.serialize).toOption
  return ⟨read, Field.ids schema.fields⟩

/-- The history after an update. -/
def evolved (history : SchemaHistory integerTypes) (event : SchemaEvent integerTypes) :
    Option (SchemaHistory integerTypes) := do
  let updated ←
    (evolve history.schema event.allowIncompatibleChanges event.requests).toOption
  let read ← (Schema.deserialize updated.serialize).toOption
  return ⟨read, history.usedIds ++ Field.ids updated.fields⟩

theorem toOption_eq_some {Value : Type} {result : Except Error Value} {value : Value} :
    result.toOption = some value ↔ result = .ok value := by
  cases result <;> simp [Except.toOption]

theorem starts_created {history : SchemaHistory integerTypes}
    (isCreated : created = some history) : history.Starts := by
  unfold created at isCreated
  simp only [Option.bind_eq_bind, Option.bind_eq_some_iff, toOption_eq_some] at isCreated
  rcases isCreated with ⟨schema, isSchema, read, isRead, isHistory⟩
  cases isHistory
  exact ⟨_, _, schema, isSchema, isRead, rfl⟩

theorem step_evolved {history next : SchemaHistory integerTypes} {event : SchemaEvent integerTypes}
    (isEvolved : evolved history event = some next) : history.Step event next := by
  unfold evolved at isEvolved
  simp only [Option.bind_eq_bind, Option.bind_eq_some_iff, toOption_eq_some] at isEvolved
  rcases isEvolved with ⟨updated, isUpdated, read, isRead, isNext⟩
  cases isNext
  exact ⟨updated, isUpdated, isRead, rfl⟩

theorem orderly_singleton (schema : Schema types) (request : FieldRequest types) :
    Orderly schema [request] where
  oneKind := by simp
  apart := by
    intro locator newName isRename isNew other otherMem sameTarget
    obtain rfl := List.mem_singleton.mp otherMem
    obtain rfl := List.mem_singleton.mp isRename
    exact isNew sameTarget.symm
  sameField := by simp

def addsField (name : String) : SchemaEvent integerTypes := ⟨true, [.add (integerField name)]⟩

def removesField (name : String) : SchemaEvent integerTypes := ⟨true, [.remove (.name name)]⟩

def replacesField (oldName newName : String) : SchemaEvent integerTypes :=
  ⟨true, [.remove (.name oldName), .add (integerField newName)]⟩

theorem orderly_replacesField (schema : Schema integerTypes) {oldName newName : String}
    (isOther : oldName ≠ newName) :
    Orderly schema (replacesField oldName newName).requests where
  oneKind := by
    have isTarget : (FieldRequest.remove (.name oldName)).target schema ≠
        (FieldRequest.add (integerField newName)).target schema := isOther
    simp [replacesField, isTarget, isTarget.symm]
  apart := by simp [replacesField]
  sameField := by simp [replacesField, FieldRequest.kind]

private theorem created_isSome : created.isSome := by decide +kernel

private theorem added_isSome :
    (evolved (created.get created_isSome) (addsField "c")).isSome := by decide +kernel

private theorem removed_isSome :
    (evolved (created.get created_isSome) (removesField "b")).isSome := by decide +kernel

/-- A field is added, and then replaced by another one in one update. -/
theorem neverReused_run_adds :
    ∃ events, ∃ history : SchemaHistory integerTypes,
      Run (Guarded KeepsGreatest Step) (created.get created_isSome) events history ∧
      history.NeverReused (replacesField "c" "d") := by
  have starts := starts_created (Option.some_get created_isSome).symm
  have step := step_evolved (Option.some_get added_isSome).symm
  have keepsGreatest : KeepsGreatest (created.get created_isSome) (addsField "c") :=
    ⟨orderly_singleton _ _, Or.inl ⟨integerField "c", List.mem_singleton_self _⟩⟩
  have guarded : Guarded KeepsGreatest Step _ _ _ := ⟨keepsGreatest, step⟩
  have run := Run.nil.snoc guarded
  exact ⟨_, _, run, neverReused_run starts run (orderly_replacesField _ (by decide))⟩

/--
The second of two fields is removed. When the schema was read back, the next
field gets its identifier.
-/
theorem not_neverReused_run :
    ∃ start : SchemaHistory integerTypes, start.Starts ∧
      ∃ history, Run Step start [removesField "b"] history ∧
        ¬history.NeverReused (addsField "c") := by
  have starts := starts_created (Option.some_get created_isSome).symm
  have step := step_evolved (Option.some_get removed_isSome).symm
  refine ⟨_, starts, _, Run.nil.snoc step, ?_⟩
  intro neverReused
  have isReused : ((evolve ((evolved (created.get created_isSome) (removesField "b")).get
      removed_isSome).schema true [.add (integerField "c")]).toOption.map
        fun updated => updated.fields.map fun field => (field.name, field.id)) =
          some [("a", some 0), ("c", some 1)] := by decide +kernel
  rcases Option.map_eq_some_iff.mp isReused with ⟨updated, isUpdated, areFields⟩
  have isAdded : ("c", some 1) ∈ updated.fields.map fun field => (field.name, field.id) := by
    simp [areFields]
  rcases List.mem_map.mp isAdded with ⟨field, fieldMem, isField⟩
  rw [Prod.mk.injEq] at isField
  refine (neverReused updated (toOption_eq_some.mp isUpdated)).added (integerField "c")
    (List.mem_singleton_self _) field fieldMem isField.1 1 isField.2 ?_
  decide +kernel

end Examples

end SchemaHistory

end Deltacat.Storage
