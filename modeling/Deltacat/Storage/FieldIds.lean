import Deltacat.Storage.SchemaHistory

/-!
# The identifiers of new fields

`Schema.of` gives an identifier to each field that has none: the greatest identifier that
is in use plus the index of the field. The identifiers are meant to start after the
greatest one, but that of a first field does not (`assignsIds_iff`).
-/

namespace Deltacat.Storage

open Deltacat.Library

variable {types : ArrowTypes}

namespace Field

/-- Identifiers are not validated, and what was built is built again as it is. -/
theorem of_withId {field : Field types} (isBuilt : Field.of field = .ok field) (id : Option ℤ) :
    Field.of { field with id := id } = .ok { field with id := id } := by
  have isDefault := of_eq_ok isBuilt
  have sameDefaults : ({ field with id := id } : Field types).withDefaults =
      { field with id := id } := by
    calc ({ field with id := id } : Field types).withDefaults
        = { field.withDefaults with id := id } := rfl
      _ = { field with id := id } := by rw [← isDefault]
  have isValid : field.validate = .ok () := by
    unfold Field.of at isBuilt
    rw [← isDefault] at isBuilt
    cases isValid : field.validate with
    | error error =>
        rw [isValid] at isBuilt
        cases isBuilt
    | ok => rfl
  have sameValid : ({ field with id := id } : Field types).validate = .ok () := isValid
  rw [Field.of, sameDefaults, sameValid]
  rfl

end Field

/-- A field that `Field.of` has built. -/
abbrev BuiltField (types : ArrowTypes) := {field : Field types // Field.of field = .ok field}

namespace Schema

/-- `field_id`. -/
def fieldId (schema : Schema types) (name : String) : Except Error (Option ℤ) :=
  match schema.fields.find? (·.name = name) with
  | none => .error .keyError
  | some field => do return (← Field.of field).id

/-- `field`, with a locator that is a name or an identifier. -/
def field (schema : Schema types) (locator : String ⊕ ℤ) : Except Error (Field types) := do
  let fieldId ← match locator with
    | .inl name => schema.fieldId name
    | .inr id => .ok (some id)
  match schema.fields.find? (·.id = fieldId) with
  | none => throw .keyError
  | some field => return field

/-- The identifiers that the fields have or get, from an index on. -/
def assignedIds (maxFieldId : ℤ) : ℕ → List (Field types) → List ℤ
  | _, [] => []
  | index, field :: fields =>
      field.id.getD ((maxFieldId + index) % maxFieldIdExclusive) ::
        assignedIds maxFieldId (index + 1) fields

def withId (field : Field types) (id : ℤ) : Field types := { field with id := some id }

def withIds (fields : List (Field types)) (ids : List ℤ) : List (Field types) :=
  List.zipWith withId fields ids

@[simp] theorem length_assignedIds {maxFieldId : ℤ} {index : ℕ} {fields : List (Field types)} :
    (assignedIds maxFieldId index fields).length = fields.length := by
  induction fields generalizing index with
  | nil => rfl
  | cons field fields ih => simp [assignedIds, ih]

theorem getElem?_assignedIds {maxFieldId : ℤ} {fields : List (Field types)} (index position : ℕ) :
    (assignedIds maxFieldId index fields)[position]? = fields[position]?.map fun field =>
      field.id.getD ((maxFieldId + ↑(index + position)) % maxFieldIdExclusive) := by
  induction fields generalizing index position with
  | nil => rfl
  | cons field fields ih =>
      cases position with
      | zero => rfl
      | succ position =>
          have next := ih (index + 1) position
          simp only [assignedIds, List.getElem?_cons_succ, next]
          congr! 6
          omega

theorem ids_withIds {fields : List (Field types)} {ids : List ℤ}
    (sameLength : ids.length = fields.length) : Field.ids (withIds fields ids) = ids := by
  induction fields generalizing ids with
  | nil => simpa [withIds, Field.ids] using sameLength
  | cons field fields ih =>
      cases ids with
      | nil => simp at sameLength
      | cons id ids =>
          have rest : Field.ids (withIds fields ids) = ids := ih (by simpa using sameLength)
          simpa [withIds, withId, Field.ids] using rest

theorem populateField_built {field : Field types} (isBuilt : Field.of field = .ok field)
    (maxFieldId : ℤ) (populated : List (Field types)) :
    populateField maxFieldId populated field =
      let id := field.id.getD ((maxFieldId + populated.length) % maxFieldIdExclusive)
      if id ∈ Field.ids populated then .error .valueError
      else .ok (populated ++ [withId field id]) := by
  have sameTest : ∀ id : ℤ,
      (populated.any (·.id = some id) = true) = (id ∈ Field.ids populated) := by
    intro id
    simp [Field.mem_ids]
  simp only [populateField, isBuilt, bind, Except.bind, sameTest, Field.of_withId isBuilt]
  rfl

/-- All the fields are populated if their identifiers are distinct. -/
theorem populateFields_built {fields : List (Field types)}
    (built : ∀ field ∈ fields, Field.of field = .ok field) (maxFieldId : ℤ)
    (populated : List (Field types)) (nodup : (Field.ids populated).Nodup) :
    fields.foldlM (populateField maxFieldId) populated =
      if (Field.ids populated ++ assignedIds maxFieldId populated.length fields).Nodup then
        .ok (populated ++ withIds fields (assignedIds maxFieldId populated.length fields))
      else .error .valueError := by
  induction fields generalizing populated with
  | nil => simp [assignedIds, withIds, nodup]; rfl
  | cons field fields ih =>
      rw [List.foldlM_cons, populateField_built (built field (by simp))]
      generalize isId :
        field.id.getD ((maxFieldId + populated.length) % maxFieldIdExclusive) = id
      by_cases isUsed : id ∈ Field.ids populated
      · have repeated : ¬(Field.ids populated ++
            assignedIds maxFieldId populated.length (field :: fields)).Nodup := by
          intro isNodup
          refine (List.nodup_append.mp isNodup).2.2 id isUsed id ?_ rfl
          simp [assignedIds, isId]
        rw [if_neg repeated]
        simp only [isUsed, if_true]
        rfl
      · have nextIds :
            Field.ids (populated ++ [withId field id]) = Field.ids populated ++ [id] := by
          simp [Field.ids, withId]
        have nextNodup : (Field.ids (populated ++ [withId field id])).Nodup := by
          rw [nextIds]
          exact List.nodup_append.mpr ⟨nodup, List.nodup_singleton id, by
            intro left leftMem right rightMem same
            rw [List.mem_singleton.mp rightMem] at same
            exact isUsed (same ▸ leftMem)⟩
        have rest := ih (fun other otherMem => built other (by simp [otherMem]))
          (populated ++ [withId field id]) nextNodup
        simp only [isUsed, if_false, bind, Except.bind]
        rw [rest, nextIds, List.length_append, List.length_singleton]
        simp [assignedIds, isId, withIds]

theorem validateFieldNames_eq_ok {fields : List (Field types)} :
    validateFieldNames fields = .ok () ↔
      fields ≠ [] ∧ (fields.map fun field => types.lower field.name).Nodup := by
  unfold validateFieldNames
  split
  case isTrue isEmpty => simp [isEmpty]
  case isFalse nonempty => simp [nonempty]

/-- `Schema.of` of fields that were built. -/
theorem of_built {fields : List (Field types)}
    (built : ∀ field ∈ fields, Field.of field = .ok field) (nonempty : fields ≠ [])
    (names : (fields.map fun field => types.lower field.name).Nodup) (schemaId : Option ℕ) :
    Schema.of ⟨fields, none⟩ schemaId =
      let ids := assignedIds (findMaxFieldId fields) 0 fields
      if ids.Nodup then
        .ok ⟨withIds fields ids, greatestId (withIds fields ids), schemaId.getD 0⟩
      else .error .valueError := by
  have populated := populateFields_built built (findMaxFieldId fields) [] (by simp [Field.ids])
  have noIds : Field.ids ([] : List (Field types)) = [] := rfl
  rw [noIds, List.nil_append, List.nil_append, List.length_nil] at populated
  have isValid := validateFieldNames_eq_ok.mpr ⟨nonempty, names⟩
  simp only [Schema.of, isValid, populated, bind, Except.bind]
  by_cases nodup : (assignedIds (findMaxFieldId fields) 0 fields).Nodup
  · simp only [nodup, if_true]
    cases schemaId <;> rfl
  · simp only [nodup, if_false]

/-- The greatest identifier, from zero on. -/
theorem findMaxFieldId_spec (fields : List (Field types)) :
    0 ≤ findMaxFieldId fields ∧ (∀ id ∈ Field.ids fields, id ≤ findMaxFieldId fields) ∧
      (findMaxFieldId fields = 0 ∨ findMaxFieldId fields ∈ Field.ids fields) := by
  have spec : ∀ (fields : List (Field types)) (start : ℤ),
      let found := fields.foldl (fun maxFieldId field => max maxFieldId (field.id.getD 0)) start
      start ≤ found ∧ (∀ id ∈ Field.ids fields, id ≤ found) ∧
        (found = start ∨ found = 0 ∨ found ∈ Field.ids fields) := by
    intro fields
    induction fields with
    | nil => simp [Field.ids]
    | cons field fields ih =>
        intro start
        rcases ih (max start (field.id.getD 0)) with ⟨atLeast, isBound, isFound⟩
        simp only [List.foldl_cons]
        refine ⟨le_trans (le_max_left _ _) atLeast, ?_, ?_⟩
        · intro id isId
          rcases Field.mem_ids.mp isId with ⟨other, otherMem, otherId⟩
          rcases List.mem_cons.mp otherMem with rfl | isRest
          · calc id
                = other.id.getD 0 := by simp [otherId]
              _ ≤ max start (other.id.getD 0) := le_max_right _ _
              _ ≤ _ := atLeast
          · exact isBound id (Field.mem_ids.mpr ⟨other, isRest, otherId⟩)
        · rcases isFound with isStart | isZero | isRest
          · rcases max_choice start (field.id.getD 0) with isOld | isNew
            · exact Or.inl (isStart.trans isOld)
            · refine Or.inr ?_
              rw [isStart, isNew]
              cases hasId : field.id with
              | none => exact Or.inl rfl
              | some id => exact Or.inr (Field.mem_ids.mpr ⟨field, by simp, by simp [hasId]⟩)
          · exact Or.inr (Or.inl isZero)
          · rcases Field.mem_ids.mp isRest with ⟨other, otherMem, otherId⟩
            exact Or.inr (Or.inr (Field.mem_ids.mpr ⟨other, by simp [otherMem], otherId⟩))
  rcases spec fields 0 with ⟨nonneg, isBound, isFound⟩
  refine ⟨nonneg, isBound, ?_⟩
  rcases isFound with isZero | isZero | isMember
  · exact Or.inl isZero
  · exact Or.inl isZero
  · exact Or.inr isMember

/-- An identifier after the greatest one exceeds all the others. -/
theorem exceeds_iff {fields : List (Field types)} {index : ℕ} :
    (∀ id ∈ Field.ids fields,
      id < (findMaxFieldId fields + index) % maxFieldIdExclusive) ↔
      ∀ id ∈ Field.ids fields, 0 ≤ id →
        0 < index % maxFieldIdExclusive ∧
          id + index % maxFieldIdExclusive < maxFieldIdExclusive := by
  rcases findMaxFieldId_spec fields with ⟨nonneg, isBound, isMax⟩
  have isUsed : ∀ id ∈ Field.ids fields, 0 ≤ id → findMaxFieldId fields ∈ Field.ids fields := by
    intro id idMem idNonneg
    rcases isMax with isZero | isMember
    · have same : id = findMaxFieldId fields := by
        have atMost := isBound id idMem
        omega
      exact same ▸ idMem
    · exact isMember
  unfold maxFieldIdExclusive
  constructor
  · intro exceeds id idMem idNonneg
    have maxExceeded := exceeds _ (isUsed id idMem idNonneg)
    have atMost := isBound id idMem
    omega
  · intro room id idMem
    by_cases idNonneg : 0 ≤ id
    · have maxRoom := room _ (isUsed id idMem idNonneg) nonneg
      have atMost := isBound id idMem
      omega
    · omega

/-- What becomes of a field: it gets an identifier after those in use if it has none. -/
def IsAssigned (usedIds : List ℤ) (field result : Field types) : Prop :=
  ∃ id, result = withId field id ∧ (∀ ownId, field.id = some ownId → id = ownId) ∧
    (field.id = none → ∀ usedId ∈ usedIds, usedId < id)

/-- The schema has all the fields, which are found by their identifiers and by their names. -/
structure Assigns (fields : List (Field types)) (schema : Schema types) : Prop where
  assigned : List.Forall₂ (IsAssigned (Field.ids fields)) fields schema.fields
  nodup : (Field.ids schema.fields).Nodup
  foundById : ∀ field ∈ schema.fields, ∀ id, field.id = some id →
    schema.field (.inr id) = .ok field
  foundByName : ∀ field ∈ schema.fields, schema.field (.inl field.name) = .ok field

def AssignsIds (fields : List (Field types)) (schemaId : Option ℕ) : Prop :=
  ∃ schema, Schema.of ⟨fields, none⟩ schemaId = .ok schema ∧ Assigns fields schema

/-- Fields that can get identifiers after those in use. -/
structure Assignable (fields : List (Field types)) : Prop where
  nonempty : fields ≠ []
  names : (fields.map fun field => types.lower field.name).Nodup
  /-- The first field has an identifier, unless none is in use, and there are enough left. -/
  room : ∀ (index : ℕ) (field : Field types), fields[index]? = some field → field.id = none →
    ∀ id ∈ Field.ids fields, 0 ≤ id →
      0 < index % maxFieldIdExclusive ∧
        id + index % maxFieldIdExclusive < maxFieldIdExclusive
  apart : ∀ (left right : ℕ) (leftField rightField : Field types),
    fields[left]? = some leftField → fields[right]? = some rightField →
    leftField.id = none → rightField.id = none →
    left % maxFieldIdExclusive = right % maxFieldIdExclusive → left = right

/-- A field is found by what no other field has. -/
theorem find?_of_only {fields : List (Field types)} {field : Field types}
    {test : Field types → Bool} (isMember : field ∈ fields) (passes : test field)
    (isOnly : ∀ other ∈ fields, test other → other = field) :
    fields.find? test = some field := by
  cases isFound : fields.find? test with
  | none => exact absurd passes (List.find?_eq_none.mp isFound field isMember)
  | some found =>
      rw [isOnly found (List.mem_of_find?_eq_some isFound) (List.find?_some isFound)]

theorem getElem?_withIds {fields : List (Field types)} {ids : List ℤ} {index : ℕ}
    {result : Field types} :
    (withIds fields ids)[index]? = some result ↔
      ∃ field id, fields[index]? = some field ∧ ids[index]? = some id ∧
        withId field id = result := by
  simp [withIds, List.getElem?_zipWith_eq_some]

theorem eq_of_sameId {fields : List (Field types)} (nodup : (Field.ids fields).Nodup)
    {left right : Field types} (leftMem : left ∈ fields) (rightMem : right ∈ fields) {id : ℤ}
    (leftId : left.id = some id) (rightId : right.id = some id) : left = right := by
  induction fields with
  | nil => cases leftMem
  | cons field fields ih =>
      have notRest : ∀ other ∈ fields, field.id = some id → other.id = some id → False := by
        intro other otherMem isId otherId
        rw [Field.ids, List.filterMap_cons_some isId] at nodup
        exact (List.nodup_cons.mp nodup).1 (Field.mem_ids.mpr ⟨other, otherMem, otherId⟩)
      have restNodup : (Field.ids fields).Nodup :=
        List.Nodup.sublist ((List.sublist_cons_self field fields).filterMap _) nodup
      rcases List.mem_cons.mp leftMem with rfl | leftRest <;>
        rcases List.mem_cons.mp rightMem with rfl | rightRest
      · rfl
      · exact (notRest right rightRest leftId rightId).elim
      · exact (notRest left leftRest rightId leftId).elim
      · exact ih restNodup leftRest rightRest

/-- Fields with distinct identifiers and names are found. -/
theorem found_withIds {fields : List (Field types)} {ids : List ℤ}
    (built : ∀ field ∈ fields, Field.of field = .ok field)
    (names : (fields.map (·.name)).Nodup) (nodup : ids.Nodup)
    (sameLength : ids.length = fields.length) {schema : Schema types}
    (isSchema : schema.fields = withIds fields ids) {result : Field types}
    (isMember : result ∈ schema.fields) {id : ℤ} (isId : result.id = some id) :
    schema.field (.inr id) = .ok result ∧ schema.field (.inl result.name) = .ok result := by
  have schemaIds : (Field.ids schema.fields).Nodup := by
    rw [isSchema, ids_withIds sameLength]
    exact nodup
  have schemaNames : (schema.fields.map (·.name)).Nodup := by
    have sameNames : schema.fields.map (·.name) = fields.map (·.name) := by
      rw [isSchema, withIds, List.map_zipWith]
      apply List.ext_getElem
      · simp [sameLength]
      · intro index _ _
        simp [withId]
    rw [sameNames]
    exact names
  have isBuilt : Field.of result = .ok result := by
    rcases List.getElem?_of_mem isMember with ⟨index, isIndex⟩
    rw [isSchema] at isIndex
    rcases getElem?_withIds.mp isIndex with ⟨field, newId, isField, _, rfl⟩
    exact Field.of_withId (built field (List.mem_of_getElem? isField)) (some newId)
  have byId : schema.fields.find? (·.id = some id) = some result := by
    apply find?_of_only isMember (by simp [isId])
    intro other otherMem isOther
    exact eq_of_sameId schemaIds otherMem isMember (by simpa using isOther) isId
  have byName : schema.fields.find? (·.name = result.name) = some result := by
    apply find?_of_only isMember (by simp)
    intro other otherMem isOther
    exact List.inj_on_of_nodup_map schemaNames otherMem isMember (by simpa using isOther)
  constructor
  · simp only [Schema.field, bind, Except.bind, byId]
    rfl
  · have isFieldId : schema.fieldId result.name = .ok (some id) := by
      simp only [fieldId, byName, isBuilt, bind, Except.bind, isId]
      rfl
    simp only [Schema.field, isFieldId, bind, Except.bind, byId]
    rfl

theorem ne_of_ids_nodup {fields : List (Field types)} (nodup : (Field.ids fields).Nodup)
    {left right : ℕ} (isBefore : left < right) {leftField rightField : Field types}
    (isLeft : fields[left]? = some leftField) (isRight : fields[right]? = some rightField)
    {leftId rightId : ℤ} (hasLeft : leftField.id = some leftId)
    (hasRight : rightField.id = some rightId) : leftId ≠ rightId := by
  have apart := List.pairwise_filterMap.mp nodup
  rcases List.getElem?_eq_some_iff.mp isLeft with ⟨leftBound, rfl⟩
  rcases List.getElem?_eq_some_iff.mp isRight with ⟨rightBound, rfl⟩
  exact List.pairwise_iff_getElem.mp apart left right leftBound rightBound isBefore
    leftId hasLeft rightId hasRight

theorem emod_add_eq_iff {start : ℤ} {left right : ℕ} :
    (start + left) % maxFieldIdExclusive = (start + right) % maxFieldIdExclusive ↔
      (left : ℤ) % maxFieldIdExclusive = right % maxFieldIdExclusive := by
  unfold maxFieldIdExclusive
  omega

/-- The identifiers are distinct when the new ones exceed the others. -/
theorem nodup_assignedIds_iff {fields : List (Field types)}
    (distinctIds : (Field.ids fields).Nodup)
    (exceeds : ∀ (index : ℕ) (field : Field types), fields[index]? = some field →
      field.id = none → ∀ id ∈ Field.ids fields,
        id < (findMaxFieldId fields + index) % maxFieldIdExclusive) :
    (assignedIds (findMaxFieldId fields) 0 fields).Nodup ↔
      ∀ (left right : ℕ) (leftField rightField : Field types),
        fields[left]? = some leftField → fields[right]? = some rightField →
        leftField.id = none → rightField.id = none →
        left % maxFieldIdExclusive = right % maxFieldIdExclusive → left = right := by
  have assigned : ∀ {index : ℕ} {field : Field types}, fields[index]? = some field →
      (assignedIds (findMaxFieldId fields) 0 fields)[index]? =
        some (field.id.getD ((findMaxFieldId fields + index) % maxFieldIdExclusive)) := by
    intro index field isField
    rw [getElem?_assignedIds, isField, Nat.zero_add]
    rfl
  constructor
  · intro nodup left right leftField rightField isLeft isRight leftNew rightNew sameRest
    have leftBound : left < (assignedIds (findMaxFieldId fields) 0 fields).length := by
      rw [length_assignedIds]
      exact (List.getElem?_eq_some_iff.mp isLeft).1
    apply (List.getElem?_inj leftBound nodup).mp
    rw [assigned isLeft, assigned isRight, leftNew, rightNew]
    exact congrArg some (emod_add_eq_iff.mpr sameRest)
  · intro apart
    rw [List.nodup_iff_getElem?_ne_getElem?]
    intro left right isBefore isBound same
    rw [length_assignedIds] at isBound
    obtain ⟨leftField, isLeft⟩ : ∃ field, fields[left]? = some field :=
      ⟨_, List.getElem?_eq_getElem (isBefore.trans isBound)⟩
    obtain ⟨rightField, isRight⟩ : ∃ field, fields[right]? = some field :=
      ⟨_, List.getElem?_eq_getElem isBound⟩
    rw [assigned isLeft, assigned isRight] at same
    have same := Option.some.inj same
    have exceedsOwn : ∀ {index other : ℕ} {field otherField : Field types} {id : ℤ},
        fields[index]? = some field → fields[other]? = some otherField → field.id = none →
        otherField.id = some id →
        id < (findMaxFieldId fields + index) % maxFieldIdExclusive := by
      intro index other field otherField id isField isOther isNew hasId
      exact exceeds index field isField isNew id
        (Field.mem_ids.mpr ⟨otherField, List.mem_of_getElem? isOther, hasId⟩)
    cases leftId : leftField.id with
    | none =>
        cases rightId : rightField.id with
        | none =>
            rw [leftId, rightId] at same
            have sameIndex := apart left right _ _ isLeft isRight leftId rightId
              (emod_add_eq_iff.mp same)
            omega
        | some id =>
            have isLess := exceedsOwn isLeft isRight leftId rightId
            rw [leftId, rightId] at same
            exact absurd same (ne_of_gt isLess)
    | some id =>
        cases rightId : rightField.id with
        | none =>
            have isLess := exceedsOwn isRight isLeft rightId leftId
            rw [leftId, rightId] at same
            exact absurd same (ne_of_lt isLess)
        | some otherId =>
            rw [leftId, rightId] at same
            exact ne_of_ids_nodup distinctIds isBefore isLeft isRight leftId rightId same

theorem getElem?_withIds_assignedIds {fields : List (Field types)} (maxFieldId : ℤ) {index : ℕ}
    {field : Field types} (isField : fields[index]? = some field) :
    (withIds fields (assignedIds maxFieldId 0 fields))[index]? =
      some (withId field (field.id.getD ((maxFieldId + index) % maxFieldIdExclusive))) := by
  apply getElem?_withIds.mpr
  refine ⟨field, _, isField, ?_, rfl⟩
  rw [getElem?_assignedIds, isField, Nat.zero_add]
  rfl

/-- The fields are assigned their identifiers when the new ones exceed those in use. -/
theorem assigned_withIds_iff {fields : List (Field types)} {maxFieldId : ℤ} {usedIds : List ℤ} :
    List.Forall₂ (IsAssigned usedIds) fields
        (withIds fields (assignedIds maxFieldId 0 fields)) ↔
      ∀ (index : ℕ) (field : Field types), fields[index]? = some field → field.id = none →
        ∀ id ∈ usedIds, id < (maxFieldId + index) % maxFieldIdExclusive := by
  have sameLength : (withIds fields (assignedIds maxFieldId 0 fields)).length = fields.length := by
    simp [withIds]
  rw [List.forall₂_iff_get]
  constructor
  · rintro ⟨_, assigned⟩ index field isField isNew
    have isBound := (List.getElem?_eq_some_iff.mp isField).1
    rcases assigned index isBound (by omega) with ⟨newId, isResult, _, exceeds⟩
    have isAssigned := getElem?_withIds_assignedIds maxFieldId isField
    rcases List.getElem?_eq_some_iff.mp isField with ⟨_, rfl⟩
    have same := isResult.symm.trans (List.getElem?_eq_some_iff.mp isAssigned).2
    have sameId : newId = (fields[index].id).getD
        ((maxFieldId + index) % maxFieldIdExclusive) := Option.some.inj (congrArg (·.id) same)
    rw [isNew, Option.getD_none] at sameId
    exact sameId ▸ exceeds isNew
  · intro exceeds
    refine ⟨sameLength.symm, ?_⟩
    intro index isBound otherBound
    have isField : fields[index]? = some (fields.get ⟨index, isBound⟩) := by simp
    have isAssigned := getElem?_withIds_assignedIds maxFieldId isField
    have isResult := (List.getElem?_eq_some_iff.mp isAssigned).2
    refine ⟨_, isResult, ?_, ?_⟩
    · intro ownId hasId
      rw [hasId]
      rfl
    · intro isNew
      rw [isNew]
      exact exceeds index _ isField isNew

/-- The fields get identifiers after those in use exactly if there is room after these. -/
theorem assignsIds_iff (fields : List (BuiltField types)) (schemaId : Option ℕ)
    (distinctIds : (Field.ids (fields.map (·.val))).Nodup) :
    AssignsIds (fields.map (·.val)) schemaId ↔ Assignable (fields.map (·.val)) := by
  have built : ∀ field ∈ fields.map (·.val), Field.of field = .ok field := by
    intro field isField
    rcases List.mem_map.mp isField with ⟨builtField, _, rfl⟩
    exact builtField.property
  generalize fields.map (·.val) = fields at *
  constructor
  · rintro ⟨schema, isSchema, assigns⟩
    rcases except_bind_eq_ok.mp isSchema with ⟨_, isValid, _⟩
    rcases validateFieldNames_eq_ok.mp isValid with ⟨nonempty, names⟩
    rw [of_built built nonempty names] at isSchema
    by_cases nodup : (assignedIds (findMaxFieldId fields) 0 fields).Nodup
    · simp only [nodup, if_true] at isSchema
      cases isSchema
      have exceeds := assigned_withIds_iff.mp assigns.assigned
      refine ⟨nonempty, names, ?_, (nodup_assignedIds_iff distinctIds exceeds).mp nodup⟩
      intro index field isField isNew
      exact exceeds_iff.mp (exceeds index field isField isNew)
    · simp only [nodup, if_false] at isSchema
      cases isSchema
  · intro assignable
    have exceeds : ∀ (index : ℕ) (field : Field types), fields[index]? = some field →
        field.id = none → ∀ id ∈ Field.ids fields,
          id < (findMaxFieldId fields + index) % maxFieldIdExclusive := by
      intro index field isField isNew
      exact exceeds_iff.mpr (assignable.room index field isField isNew)
    have nodup := (nodup_assignedIds_iff distinctIds exceeds).mpr assignable.apart
    have isSchema := of_built built assignable.nonempty assignable.names schemaId
    simp only [nodup, if_true] at isSchema
    have sameNames : (fields.map (·.name)).Nodup := by
      have lowered : fields.map (fun field => types.lower field.name) =
          (fields.map (·.name)).map types.lower := by simp
      exact List.Nodup.of_map _ (lowered ▸ assignable.names)
    refine ⟨_, isSchema, ?_⟩
    constructor
    · exact assigned_withIds_iff.mpr exceeds
    · rw [ids_withIds length_assignedIds]
      exact nodup
    · intro field isMember id isId
      exact (found_withIds built sameNames nodup length_assignedIds rfl isMember isId).1
    · intro field isMember
      rcases List.getElem?_of_mem isMember with ⟨index, isIndex⟩
      rcases getElem?_withIds.mp isIndex with ⟨_, _, _, _, rfl⟩
      exact (found_withIds built sameNames nodup length_assignedIds rfl isMember rfl).2

section Examples

open SchemaHistory

/-- A built field with an identifier or without one. -/
def integerFieldWithId (name : String) (id : Option ℤ) : BuiltField integerTypes :=
  ⟨{ integerField name with id := id, consistencyType := some .none }, by
    simp [Field.of, Field.withDefaults, Field.validate, Field.validateDefault, integerField]
    rfl⟩

/-- The field without an identifier comes after the other one. -/
theorem assignsIds_after :
    AssignsIds [(integerFieldWithId "b" (some 5)).val, (integerFieldWithId "a" none).val] none := by
  apply (assignsIds_iff [integerFieldWithId "b" (some 5), integerFieldWithId "a" none] none
    (by decide)).mpr
  constructor
  · simp
  · decide +kernel
  · intro index field isField isNew id isUsed _
    obtain rfl : id = 5 := by simpa [Field.ids, integerFieldWithId] using isUsed
    rcases index with _ | _ | index
    · cases isField
      cases isNew
    · decide
    · simp at isField
  · intro left right leftField rightField isLeft isRight leftNew rightNew _
    have isSecond : ∀ (index : ℕ) (field : Field integerTypes),
        [(integerFieldWithId "b" (some 5)).val, (integerFieldWithId "a" none).val][index]? =
          some field → field.id = none → index = 1 := by
      intro index field isField isNew
      rcases index with _ | _ | index
      · cases isField
        cases isNew
      · rfl
      · simp at isField
    rw [isSecond left leftField isLeft leftNew, isSecond right rightField isRight rightNew]

/-- A field without an identifier comes first, and gets that of the other one. -/
def newFieldFirst : List (Field integerTypes) :=
  [(integerFieldWithId "a" none).val, (integerFieldWithId "b" (some 5)).val]

theorem not_assignsIds :
    (newFieldFirst.map (·.name)).Nodup ∧ (Field.ids newFieldFirst).Nodup ∧
      ¬AssignsIds newFieldFirst none := by
  refine ⟨by decide, by decide, ?_⟩
  rintro ⟨schema, isSchema, _⟩
  have fails : (Schema.of ⟨newFieldFirst, none⟩ none).toOption.isNone := by decide +kernel
  rw [isSchema] at fails
  cases fails

end Examples

end Schema

end Deltacat.Storage
