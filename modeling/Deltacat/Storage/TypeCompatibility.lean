import Deltacat.Library.Procedure
import Deltacat.Library.Run
import Deltacat.Storage.SchemaFields
import Mathlib.Logic.Relation

/-!
# Backward compatibility of types

`_is_type_compatible` accepts equal types, wider numeric types, floating point types for
integers, structs with more fields, and lists and maps of compatible types. It looks up the
fields of a struct by their names, which raises unless there is exactly one of that name.

The relation is a preorder (`compatible_refl`, `compatible_trans`). Without incompatible
changes, schema updates remove no fields, and a chain of them leaves each field with a type
that is compatible with its original type.
-/

namespace Deltacat.Storage

open Deltacat.Library

mutual

/--
An Arrow type. Types that are compatible only with equal ones, and the differences between
them that `equals` sees, are represented by a description. Metadata and the names of list
values make no difference.
-/
inductive ArrowType
  | integer (signed : Bool) (bitWidth : ℕ)
  | floating (bitWidth : ℕ)
  | string
  | binary
  | struct (fields : StructFields)
  | list (valueNullable : Bool) (valueType : ArrowType)
  | map (keysSorted itemNullable : Bool) (keyType itemType : ArrowType)
  | other (description : String)
  deriving DecidableEq

/-- The fields of a struct type: their names, whether they are nullable, and their types. -/
inductive StructFields
  | nil
  | cons (name : String) (nullable : Bool) (type : ArrowType) (fields : StructFields)
  deriving DecidableEq

end

namespace StructFields

def toList : StructFields → List (String × ArrowType)
  | nil => []
  | cons name _ type fields => (name, type) :: fields.toList

def names (fields : StructFields) : List String := fields.toList.map Prod.fst

/-- `field` of a name, which must be unique. -/
def field (fields : StructFields) (name : String) : Except Error ArrowType :=
  match fields.toList.filter (·.1 = name) with
  | [(_, type)] => .ok type
  | _ => .error .keyError

end StructFields

mutual

/-- `_is_type_compatible`. -/
def isTypeCompatible (oldType newType : ArrowType) : Except Error Bool :=
  if oldType = newType then .ok true
  else
    match oldType, newType with
    | .integer oldSigned oldWidth, .integer newSigned newWidth =>
        .ok (newWidth ≥ oldWidth ∧ oldSigned = newSigned)
    | .floating oldWidth, .floating newWidth => .ok (newWidth ≥ oldWidth)
    | .integer _ _, .floating _ => .ok true
    | .string, .string => .ok true
    | .binary, .binary => .ok true
    | .struct oldFields, .struct newFields =>
        if oldFields.names ⊆ newFields.names then areFieldsCompatible oldFields newFields
        else .ok false
    | .list _ oldValue, .list _ newValue => isTypeCompatible oldValue newValue
    | .map _ _ oldKey oldItem, .map _ _ newKey newItem => do
        if ← isTypeCompatible oldKey newKey then isTypeCompatible oldItem newItem
        else return false
    | _, _ => .ok false

/-- The loop over the old fields of a struct. -/
def areFieldsCompatible (oldFields newFields : StructFields) : Except Error Bool :=
  match oldFields with
  | .nil => .ok true
  | .cons name _ oldType oldFields => do
      let newType ← newFields.field name
      if ← isTypeCompatible oldType newType then areFieldsCompatible oldFields newFields
      else return false

end

/-- The new type is accepted for the old type. -/
def TypeCompatible (oldType newType : ArrowType) : Prop :=
  isTypeCompatible oldType newType = .ok true

instance : DecidableRel TypeCompatible := fun oldType newType =>
  inferInstanceAs (Decidable (isTypeCompatible oldType newType = .ok true))

section Preorder

/-- The changes of a type that are accepted, other than none. -/
inductive Widens : ArrowType → ArrowType → Prop
  | integer {signed : Bool} {oldWidth newWidth : ℕ} (wider : oldWidth ≤ newWidth) :
      Widens (.integer signed oldWidth) (.integer signed newWidth)
  | floating {oldWidth newWidth : ℕ} (wider : oldWidth ≤ newWidth) :
      Widens (.floating oldWidth) (.floating newWidth)
  | promotion {signed : Bool} {oldWidth newWidth : ℕ} :
      Widens (.integer signed oldWidth) (.floating newWidth)
  | struct {oldFields newFields : StructFields} (names : oldFields.names ⊆ newFields.names)
      (types : ∀ entry ∈ oldFields.toList, ∃ newType,
        newFields.field entry.1 = .ok newType ∧ TypeCompatible entry.2 newType) :
      Widens (.struct oldFields) (.struct newFields)
  | list {oldNullable newNullable : Bool} {oldValue newValue : ArrowType}
      (value : TypeCompatible oldValue newValue) :
      Widens (.list oldNullable oldValue) (.list newNullable newValue)
  | map {oldSorted newSorted oldNullable newNullable : Bool}
      {oldKey newKey oldItem newItem : ArrowType} (key : TypeCompatible oldKey newKey)
      (item : TypeCompatible oldItem newItem) :
      Widens (.map oldSorted oldNullable oldKey oldItem) (.map newSorted newNullable newKey newItem)

theorem typeCompatible_refl (type : ArrowType) : TypeCompatible type type := by
  rw [TypeCompatible, isTypeCompatible.eq_def, if_pos rfl]

/-- Two checks, the second of which is made if the first one succeeds. -/
theorem and_eq_ok_true {Failure : Type} {first second : Except Failure Bool} :
    (do if ← first then second else return false) = .ok true ↔
      first = .ok true ∧ second = .ok true := by
  rcases first with failure | _ | _ <;> simp [bind, Except.bind, pure, Except.pure]

theorem areFieldsCompatible_iff (newFields : StructFields) : (oldFields : StructFields) →
    (areFieldsCompatible oldFields newFields = .ok true ↔
      ∀ entry ∈ oldFields.toList, ∃ newType,
        newFields.field entry.1 = .ok newType ∧ TypeCompatible entry.2 newType)
  | .nil => by simp [areFieldsCompatible, StructFields.toList]
  | .cons name nullable oldType oldFields => by
      have ih := areFieldsCompatible_iff newFields oldFields
      rw [areFieldsCompatible, StructFields.toList, List.forall_mem_cons, ← ih,
        except_bind_eq_ok]
      simp only [and_eq_ok_true, TypeCompatible]
      constructor
      · rintro ⟨newType, isField, compatible, rest⟩
        exact ⟨⟨newType, isField, compatible⟩, rest⟩
      · rintro ⟨⟨newType, isField, compatible⟩, rest⟩
        exact ⟨newType, isField, compatible, rest⟩

/-- The accepted changes, as rules. -/
theorem typeCompatible_iff {oldType newType : ArrowType} :
    TypeCompatible oldType newType ↔ oldType = newType ∨ Widens oldType newType := by
  by_cases same : oldType = newType
  · subst same
    simp [typeCompatible_refl]
  · rw [TypeCompatible, isTypeCompatible.eq_def, if_neg same, or_iff_right same]
    constructor
    · intro accepted
      split at accepted
      · simp only [Except.ok.injEq, decide_eq_true_eq] at accepted
        rcases accepted with ⟨wider, rfl⟩
        exact .integer wider
      · exact .floating (by simpa using accepted)
      · exact .promotion
      · exact absurd rfl same
      · exact absurd rfl same
      · split_ifs at accepted with names
        · exact .struct names ((areFieldsCompatible_iff _ _).mp accepted)
        · cases accepted
      · exact .list accepted
      · have items := and_eq_ok_true.mp accepted
        exact .map items.1 items.2
      · cases accepted
    · rintro (wider | wider | _ | ⟨names, types⟩ | value | ⟨key, item⟩)
      · simp [wider]
      · simp [wider]
      · rfl
      · simp only [if_pos names]
        exact (areFieldsCompatible_iff _ _).mpr types
      · exact value
      · exact and_eq_ok_true.mpr ⟨key, item⟩

/-- A field that is found by its name is one of the fields. -/
theorem StructFields.mem_of_field {fields : StructFields} {name : String} {type : ArrowType}
    (isField : fields.field name = .ok type) : (name, type) ∈ fields.toList := by
  rw [StructFields.field] at isField
  split at isField
  · rename_i found onlyType unique
    cases isField
    have isFound : (found, type) ∈ fields.toList.filter (·.1 = name) := by
      rw [unique]
      exact List.mem_singleton_self _
    rcases List.mem_filter.mp isFound with ⟨isMem, isName⟩
    rw [decide_eq_true_eq] at isName
    exact isName ▸ isMem
  · cases isField

/-- An accepted change after an accepted change, with the rule for the first type. -/
theorem Widens.trans {first second third : ArrowType} (widens : Widens first second)
    (accepted : TypeCompatible second third)
    (structs : ∀ fields, first = .struct fields → ∀ entry ∈ fields.toList,
      ∀ second third, TypeCompatible entry.2 second → TypeCompatible second third →
        TypeCompatible entry.2 third)
    (lists : ∀ nullable value, first = .list nullable value → ∀ second third,
      TypeCompatible value second → TypeCompatible second third → TypeCompatible value third)
    (maps : ∀ sorted nullable key item, first = .map sorted nullable key item →
      (∀ second third, TypeCompatible key second → TypeCompatible second third →
        TypeCompatible key third) ∧
      ∀ second third, TypeCompatible item second → TypeCompatible second third →
        TypeCompatible item third) :
    Widens first third := by
  rcases typeCompatible_iff.mp accepted with rfl | widensAgain
  · exact widens
  cases widens with
  | integer wider =>
      cases widensAgain with
      | integer widerAgain => exact .integer (wider.trans widerAgain)
      | promotion => exact .promotion
  | floating wider =>
      cases widensAgain with
      | floating widerAgain => exact .floating (wider.trans widerAgain)
  | promotion =>
      cases widensAgain with
      | floating _ => exact .promotion
  | @struct oldFields newFields names types =>
      cases widensAgain with
      | struct namesAgain typesAgain =>
          refine .struct (List.Subset.trans names namesAgain) ?_
          intro entry entryMem
          rcases types entry entryMem with ⟨middleType, isMiddle, compatible⟩
          rcases typesAgain _ (StructFields.mem_of_field isMiddle) with
            ⟨newType, isNew, compatibleAgain⟩
          exact ⟨newType, isNew,
            structs _ rfl entry entryMem _ _ compatible compatibleAgain⟩
  | list value =>
      cases widensAgain with
      | list valueAgain => exact .list (lists _ _ rfl _ _ value valueAgain)
  | map key item =>
      cases widensAgain with
      | map keyAgain itemAgain =>
          have parts := maps _ _ _ _ rfl
          exact .map (parts.1 _ _ key keyAgain) (parts.2 _ _ item itemAgain)

mutual

/-- Compatibility is transitive, by recursion on the first type. -/
theorem typeCompatible_trans : (first second third : ArrowType) →
    TypeCompatible first second → TypeCompatible second third → TypeCompatible first third := by
  intro first second third left right
  rcases typeCompatible_iff.mp left with rfl | widens
  · exact right
  rw [typeCompatible_iff]
  right
  apply widens.trans right
  · rintro fields rfl
    exact structFields_trans fields
  · rintro nullable value rfl
    exact typeCompatible_trans value
  · rintro sorted nullable key item rfl
    exact ⟨typeCompatible_trans key, typeCompatible_trans item⟩

theorem structFields_trans : (fields : StructFields) → ∀ entry ∈ fields.toList,
    ∀ second third, TypeCompatible entry.2 second → TypeCompatible second third →
      TypeCompatible entry.2 third
  | .nil => by simp [StructFields.toList]
  | .cons _ _ type fields => by
      rw [StructFields.toList, List.forall_mem_cons]
      exact ⟨typeCompatible_trans type, structFields_trans fields⟩

end

end Preorder

section Chains

open SchemaUpdate

/-- A chain of types, each of which is accepted for the one before. -/
abbrev TypeChain (types : ArrowTypes) : types.DataType → types.DataType → Prop :=
  Relation.ReflTransGen fun oldType newType => types.isCompatible oldType newType = true

/-- Without incompatible changes, an operation leaves the fields in place. -/
theorem typeChain_applyOperation {types : ArrowTypes} {update : SchemaUpdate types}
    {state next : ApplyState types} {operation : SchemaUpdateOperation types}
    (notAllowed : update.allowIncompatibleChanges = false)
    (isNext : update.applyOperation state operation = .ok next) {index : ℕ} {field : Field types}
    (isField : state.fields[index]? = some field) :
    ∃ nextField, next.fields[index]? = some nextField ∧
      TypeChain types field.type nextField.type := by
  have inBounds := (List.getElem?_eq_some_iff.mp isField).1
  cases operation with
  | add newField =>
      rcases applyAddField_eq_ok isNext with ⟨added, _, _, rfl⟩
      exact ⟨field, (List.getElem?_append_left inBounds).trans isField, .refl⟩
  | remove locator =>
      simp only [applyOperation, applyRemoveField, notAllowed] at isNext
      split at isNext <;> cases isNext
  | update locator updatedField =>
      rcases applyUpdateField_validates isNext with ⟨fieldIndex, oldField, isOld, isValid, areNext⟩
      rw [unlessAllowed, notAllowed] at isValid
      have compatible := isCompatible_of_validateUpdateField isValid
      rw [areNext]
      by_cases same : fieldIndex = index
      · subst same
        rw [isField] at isOld
        cases isOld
        exact ⟨_, List.getElem?_set_self inBounds, .single compatible⟩
      · exact ⟨field, (List.getElem?_set_ne same).trans isField, .refl⟩

/-- One schema update without incompatible changes. -/
theorem typeChain_evolve {types : ArrowTypes} {schema next : Schema types}
    {requests : List (FieldRequest types)} (isNext : evolve schema false requests = .ok next)
    {index : ℕ} {field : Field types} (isField : schema.fields[index]? = some field) :
    ∃ nextField, next.fields[index]? = some nextField ∧
      TypeChain types field.type nextField.type := by
  rcases except_bind_eq_ok.mp isNext with ⟨update, isUpdate, isApplied⟩
  rcases requests_keep isUpdate with ⟨isBase, notAllowed⟩
  rcases exists_of_apply isApplied with ⟨final, isFinal, newSchema, isSchema, rfl⟩
  have inLoop : ∃ finalField, final.fields[index]? = some finalField ∧
      TypeChain types field.type finalField.type := by
    apply @loop_induction _ update _ _ (fun state => ∃ finalField,
      state.fields[index]? = some finalField ∧ TypeChain types field.type finalField.type) _ _ _
      isFinal
    · exact ⟨field, by rw [isBase]; exact isField, .refl⟩
    · rintro operation _ before after ⟨beforeField, isBefore, chain⟩ isAfter
      rcases typeChain_applyOperation notAllowed isAfter isBefore with
        ⟨afterField, isAfterField, chainAfter⟩
      exact ⟨afterField, isAfterField, chain.trans chainAfter⟩
  rcases inLoop with ⟨finalField, isFinalField, chain⟩
  have populated := Schema.populated_of_of isSchema
  rcases List.forall₂_iff_get.mp populated with ⟨sameLength, pointwise⟩
  rcases List.getElem?_eq_some_iff.mp isFinalField with ⟨inBounds, rfl⟩
  have inNew : index < newSchema.fields.length := sameLength ▸ inBounds
  rcases pointwise index inNew inBounds with ⟨id, isBuilt, _⟩
  refine ⟨newSchema.fields[index], List.getElem?_eq_getElem inNew, ?_⟩
  rw [List.get_eq_getElem] at isBuilt
  rw [isBuilt]
  exact chain

/-- What else is asked about Arrow types, their default values and orders. -/
structure ArrowSupport where
  Default : Type
  MergeOrder : Type
  [decidableDefault : DecidableEq Default]
  [decidableMergeOrder : DecidableEq MergeOrder]
  isPrimitive : String → Bool
  isDate : String → Bool
  hasScalar : Default → ArrowType → Bool
  lower : String → String

attribute [instance] ArrowSupport.decidableDefault ArrowSupport.decidableMergeOrder

/-- Arrow types as the types of schemas. -/
def ArrowSupport.types (support : ArrowSupport) : ArrowTypes where
  DataType := ArrowType
  Default := support.Default
  MergeOrder := support.MergeOrder
  isPrimitive
    | .integer _ _ | .floating _ => true
    | .other description => support.isPrimitive description
    | _ => false
  isString type := type = .string
  isFloating
    | .floating _ => true
    | _ => false
  isInteger
    | .integer _ _ => true
    | _ => false
  isDate
    | .other description => support.isDate description
    | _ => false
  hasScalar := support.hasScalar
  isCompatible oldType newType := TypeCompatible oldType newType
  lower := support.lower

theorem typeCompatible_of_typeChain {support : ArrowSupport} {oldType newType : ArrowType}
    (chain : TypeChain support.types oldType newType) : TypeCompatible oldType newType := by
  induction chain with
  | refl => exact typeCompatible_refl oldType
  | tail _ accepted ih => exact typeCompatible_trans _ _ _ ih (of_decide_eq_true accepted)

/--
Compatibility is a preorder, and after any chain of accepted schema updates the type of each
field is compatible with its original type.
-/
theorem typeCompatible_preorder (support : ArrowSupport) :
    (∀ type, TypeCompatible type type) ∧
    (∀ first second third, TypeCompatible first second → TypeCompatible second third →
      TypeCompatible first third) ∧
    ∀ (schema final : Schema support.types) (updates : List (List (FieldRequest support.types))),
      Run (fun schema requests next => evolve schema false requests = .ok next) schema updates
          final →
        ∀ (index : ℕ) (field : Field support.types), schema.fields[index]? = some field →
          ∃ finalField : Field support.types, final.fields[index]? = some finalField ∧
            TypeCompatible field.type finalField.type := by
  refine ⟨typeCompatible_refl, typeCompatible_trans, ?_⟩
  intro schema final updates run index field isField
  have reached : ∃ finalField, final.fields[index]? = some finalField ∧
      TypeChain support.types field.type finalField.type := by
    apply @Run.invariant _ _ _ (fun state : Schema support.types => ∃ finalField,
      state.fields[index]? = some finalField ∧ TypeChain support.types field.type finalField.type)
      _ _ _ run
    · exact ⟨field, isField, .refl⟩
    · rintro before requests after ⟨beforeField, isBefore, chain⟩ isAfter
      rcases typeChain_evolve isAfter isBefore with ⟨afterField, isAfterField, chainAfter⟩
      exact ⟨afterField, isAfterField, chain.trans chainAfter⟩
  rcases reached with ⟨finalField, isFinal, chain⟩
  exact ⟨finalField, isFinal, typeCompatible_of_typeChain chain⟩

/-- A support without default values. -/
def ArrowSupport.plain : ArrowSupport where
  Default := Empty
  MergeOrder := Unit
  isPrimitive _ := false
  isDate _ := false
  hasScalar := nofun
  lower := id

/-- A schema with a list of prices, which are structs of the given fields. -/
def pricesSchema (fields : StructFields) (id : ℕ) : Schema ArrowSupport.plain.types where
  fields := [{
    name := "prices"
    type := .list true (.struct fields)
    nullable := true
    id := some 0
    isMergeKey := false
    mergeOrder := none
    isEventTime := false
    doc := none
    pastDefault := none
    futureDefault := none
    consistencyType := none }]
  maxFieldId := 0
  id := id

/-- The update that gives the prices other fields. -/
def updatesPrices (fields : StructFields) : List (FieldRequest ArrowSupport.plain.types) :=
  [.updateType (.name "prices") (.list true (.struct fields))]

theorem evolve_pricesSchema {fields newFields : StructFields} (id : ℕ)
    (isCompatible : TypeCompatible (.list true (.struct fields))
      (.list true (.struct newFields))) :
    evolve (pricesSchema fields id) false (updatesPrices newFields) =
      .ok (pricesSchema newFields (id + 1)) := by
  have accepted : ArrowSupport.plain.types.isCompatible (.list true (.struct fields))
      (.list true (.struct newFields)) = true := decide_eq_true isCompatible
  simp [evolve, updatesPrices, pricesSchema, request, updateFieldType, updateField,
    getExistingField, getFieldName, apply, hasConflict, SchemaUpdateOperation.conflictName,
    applyOperation, applyUpdateField, nameToIndex, unlessAllowed, validateUpdateField, accepted,
    validateConsistencyType, Schema.of, Schema.validateFieldNames, Schema.findMaxFieldId,
    Schema.populateField, Field.of, Field.withDefaults, Field.validate, Field.validateDefault,
    Schema.greatestId, bind, Except.bind, pure, Except.pure, Except.map, maxFieldIdExclusive]

/-- The amount of a price becomes wider and then a floating point number beside a currency. -/
theorem typeCompatible_prices :
    ∃ finalField,
      (pricesSchema (.cons "amount" true (.floating 64) (.cons "currency" true .string .nil))
        2).fields[0]? = some finalField ∧
      TypeCompatible (.list true (.struct (.cons "amount" true (.integer true 32) .nil)))
        finalField.type := by
  have widened := @evolve_pricesSchema (.cons "amount" true (.integer true 32) .nil)
    (.cons "amount" true (.integer true 64) .nil) 0 (by decide)
  have extended := @evolve_pricesSchema (.cons "amount" true (.integer true 64) .nil)
    (.cons "amount" true (.floating 64) (.cons "currency" true .string .nil)) 1 (by decide)
  exact (typeCompatible_preorder .plain).2.2 _ _ _ ((Run.nil.snoc widened).snoc extended) 0 _ rfl

end Chains

end Deltacat.Storage
