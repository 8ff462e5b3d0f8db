import Deltacat.Exceptions
import Deltacat.Library.KeyedItems

/-!
# The schemas of a dataset

A dataset keeps its fields in named schemas, a copy for each schema that has the
field, and one more in the schema `all`. Six operations change these copies.
Assigning a field replaces the copy in `all` only, and assigning the field names
of a schema adds them one by one, so that a name that is twice in the request or
already in the schema stops it midway. A run keeps the copies equal and its
failed operations leave no trace exactly if no step assigns like this
(`staysConsistent_iff`).
-/

namespace Deltacat.Experimental.Rivulet.DatasetSchemas

open Deltacat.Library

universe u

variable {Datatype : Type u}

structure Field (Datatype : Type u) where
  name : String
  datatype : Datatype
  isMergeKey : Bool
  deriving DecidableEq

/-- `Schema`: fields under their names. -/
abbrev Schema (Datatype : Type u) := KeyedItems fun field : Field Datatype => field.name

/-- The name of the schema of all fields. -/
abbrev ALL : String := "all"

/-- The name of the schema that is used when none is given. -/
abbrev DEFAULT : String := "default"

namespace Schema

/-- `Schema.add_field`. -/
def addField (schema : Schema Datatype) (field : Field Datatype) :
    Except Error (Schema Datatype) :=
  if schema.contains field.name then .error .valueError else .ok (schema.set field)

/-- The fields a new `Schema` is constructed from. -/
def addEach (schema : Schema Datatype) : List (Field Datatype) → Except Error (Schema Datatype)
  | [] => .ok schema
  | field :: fields => do addEach (← addField schema field) fields

variable [DecidableEq Datatype]

/-- The loop of `Schema.merge`, over the fields of the other schema. -/
def merge (schema : Schema Datatype) : List (Field Datatype) → Schema Datatype × Except Error Unit
  | [] => (schema, .ok ())
  | field :: fields =>
      match schema.get? field.name with
      | some existing =>
          if existing ≠ field then (schema, .error .valueError) else merge schema fields
      | none => merge (schema.set field) fields

/-- Merging fields that agree with those present adds the missing ones. -/
theorem merge_spec (fields : List (Field Datatype)) (schema : Schema Datatype)
    (distinct : (fields.map fun field => field.name).Nodup)
    (agree : ∀ field ∈ fields, ∀ existing,
      schema.get? field.name = some existing → existing = field) :
    ∃ merged, merge schema fields = (merged, .ok ()) ∧
      ∀ name field, merged.get? name = some field ↔
        schema.get? name = some field ∨ (field ∈ fields ∧ field.name = name) := by
  induction fields generalizing schema with
  | nil => exact ⟨schema, rfl, by simp⟩
  | cons first rest ih =>
      simp only [List.map_cons, List.nodup_cons] at distinct
      have others : ∀ field ∈ rest, first.name ≠ field.name := fun field later same =>
        distinct.1 (same ▸ List.mem_map_of_mem later)
      simp only [merge]
      cases found : schema.get? first.name with
      | some existing =>
          have same : existing = first := agree first (by simp) existing found
          subst same
          rcases ih schema distinct.2 (fun field later => agree field (by simp [later]))
            with ⟨merged, result, holds⟩
          refine ⟨merged, by simpa using result, ?_⟩
          intro name field
          rw [holds, List.mem_cons]
          constructor
          · rintro (old | ⟨later, named⟩)
            · exact Or.inl old
            · exact Or.inr ⟨Or.inr later, named⟩
          · rintro (old | ⟨rfl | later, named⟩)
            · exact Or.inl old
            · exact Or.inl (named ▸ found)
            · exact Or.inr ⟨later, named⟩
      | none =>
          have agreeRest : ∀ field ∈ rest, ∀ existing,
              (schema.set first).get? field.name = some existing → existing = field := by
            intro field later existing isFound
            rw [KeyedItems.get?_set, if_neg (others field later)] at isFound
            exact agree field (by simp [later]) existing isFound
          rcases ih (schema.set first) distinct.2 agreeRest with ⟨merged, result, holds⟩
          refine ⟨merged, result, ?_⟩
          intro name field
          rw [holds, KeyedItems.get?_set, List.mem_cons]
          by_cases named : first.name = name
          · subst named
            rw [if_pos rfl, found]
            constructor
            · rintro (isFirst | ⟨later, sameName⟩)
              · cases isFirst
                exact Or.inr ⟨Or.inl rfl, rfl⟩
              · exact Or.inr ⟨Or.inr later, sameName⟩
            · rintro (old | ⟨rfl | later, sameName⟩)
              · cases old
              · exact Or.inl rfl
              · exact Or.inr ⟨later, sameName⟩
          · rw [if_neg named]
            constructor
            · rintro (old | ⟨later, sameName⟩)
              · exact Or.inl old
              · exact Or.inr ⟨Or.inr later, sameName⟩
            · rintro (old | ⟨rfl | later, sameName⟩)
              · exact Or.inl old
              · exact absurd sameName named
              · exact Or.inr ⟨later, sameName⟩

end Schema

/-- An element of the `fields` argument of `add_fields`. -/
inductive FieldInput (Datatype : Type u)
  | tuple (name : String) (datatype : Datatype)
  | field (field : Field Datatype)
  | other

/-- The field of one input. -/
def processField (mergeKeys : List String) : FieldInput Datatype → Except Error (Field Datatype)
  | .tuple name datatype =>
      .ok { name := name, datatype := datatype, isMergeKey := name ∈ mergeKeys }
  | .field field =>
      if field.name ∈ mergeKeys ∧ field.isMergeKey = false then .error .typeError else .ok field
  | .other => .error .typeError

/-- The schema that `add_fields` adds. -/
def processFields (fields : List (FieldInput Datatype)) (mergeKeys : List String) :
    Except Error (Schema Datatype) := do
  if fields.isEmpty then throw .valueError
  let processed ← fields.mapM (processField mergeKeys)
  if mergeKeys.any fun name => name ∉ processed.map fun field => field.name then
    throw .valueError
  Schema.addEach KeyedItems.empty processed

/-- `Dataset._schemas`, which always has the schema `all`. -/
structure Dataset (Datatype : Type u) where
  schemas : KeyedItems fun entry : String × Schema Datatype => entry.1
  hasAll : (schemas.get? ALL).isSome

namespace Dataset

/-- The named schema, if it exists. -/
def schema? (dataset : Dataset Datatype) (name : String) : Option (Schema Datatype) :=
  (dataset.schemas.get? name).map Prod.snd

/-- The schema of all fields. -/
def all (dataset : Dataset Datatype) : Schema Datatype :=
  ((dataset.schemas.get? ALL).get dataset.hasAll).2

/-- Store a schema under a name. -/
def store (dataset : Dataset Datatype) (name : String) (schema : Schema Datatype) :
    Dataset Datatype where
  schemas := dataset.schemas.set (name, schema)
  hasAll := by
    rw [KeyedItems.get?_set]
    split
    · rfl
    · exact dataset.hasAll

theorem schema?_all (dataset : Dataset Datatype) : dataset.schema? ALL = some dataset.all := by
  rcases Option.isSome_iff_exists.mp dataset.hasAll with ⟨entry, found⟩
  simp [schema?, all, found]

@[simp]
theorem schema?_store (dataset : Dataset Datatype) (name other : String)
    (schema : Schema Datatype) :
    (dataset.store name schema).schema? other =
      if name = other then some schema else dataset.schema? other := by
  simp only [schema?, store, KeyedItems.get?_set]
  split <;> rfl

theorem all_store_all (dataset : Dataset Datatype) (schema : Schema Datatype) :
    (dataset.store ALL schema).all = schema := by
  have found := schema?_all (dataset.store ALL schema)
  rw [schema?_store, if_pos rfl] at found
  exact (Option.some.inj found).symm

theorem all_store_of_ne (dataset : Dataset Datatype) {name : String}
    (schema : Schema Datatype) (other : name ≠ ALL) :
    (dataset.store name schema).all = dataset.all := by
  have found := schema?_all (dataset.store name schema)
  rw [schema?_store, if_neg other, schema?_all] at found
  exact (Option.some.inj found).symm

/-- Create the named schema if it does not exist. -/
def ensure (dataset : Dataset Datatype) (name : String) : Dataset Datatype :=
  match dataset.schema? name with
  | some _ => dataset
  | none => dataset.store name KeyedItems.empty

/-- A dataset without fields. -/
def empty : Dataset Datatype where
  schemas := KeyedItems.empty.set (ALL, KeyedItems.empty)
  hasAll := by simp [KeyedItems.get?_set]

/-- `FieldsAccessor.__setitem__` with a `Field`, which is stored under its own name. -/
def setField (dataset : Dataset Datatype) (field : Field Datatype) : Dataset Datatype :=
  dataset.store ALL (dataset.all.set field)

/-- The loop of `FieldsAccessor.__delitem__` over the schemas. -/
def deleteFrom (name : String) (dataset : Dataset Datatype) :
    List String → Dataset Datatype × Except Error Unit
  | [] => (dataset, .ok ())
  | schemaName :: rest =>
      match dataset.schema? schemaName with
      | none => deleteFrom name dataset rest
      | some schema =>
          match schema.get? name with
          | none => deleteFrom name dataset rest
          | some field =>
              if field.isMergeKey then (dataset, .error .valueError)
              else deleteFrom name (dataset.store schemaName (schema.erase name)) rest

/-- `FieldsAccessor.__delitem__`. -/
def deleteField (dataset : Dataset Datatype) (name : String) :
    Dataset Datatype × Except Error Unit :=
  match dataset.all.get? name with
  | none => (dataset, .error .valueError)
  | some field =>
      if field.isMergeKey then (dataset, .error .valueError)
      else
        let deleted := dataset.store ALL (dataset.all.erase name)
        deleted.deleteFrom name (deleted.schemas.items.map Prod.fst)

/-- The loop of `_add_fields_to_schema` over the field names. -/
def addNamed (schemaName : String) (dataset : Dataset Datatype) :
    List String → Dataset Datatype × Except Error Unit
  | [] => (dataset, .ok ())
  | name :: rest =>
      match dataset.schema? schemaName, dataset.all.get? name with
      | some schema, some field =>
          match Schema.addField schema field with
          | .error error => (dataset, .error error)
          | .ok added => addNamed schemaName (dataset.store schemaName added) rest
      | _, _ => (dataset, .error .keyError)

/-- `_add_fields_to_schema`, which assigning the field names of a schema calls. -/
def setSchema (dataset : Dataset Datatype) (schemaName : String) (fieldNames : List String) :
    Dataset Datatype × Except Error Unit :=
  if fieldNames.all dataset.all.contains then
    (dataset.ensure schemaName).addNamed schemaName fieldNames
  else (dataset, .error .valueError)

/-- `SchemasAccessor.__delitem__`. -/
def deleteSchema (dataset : Dataset Datatype) (schemaName : String) :
    Dataset Datatype × Except Error Unit :=
  if (dataset.schema? schemaName).isNone then (dataset, .error .valueError)
  else if isAll : schemaName = ALL then (dataset, .error .valueError)
  else
    ({ schemas := dataset.schemas.erase schemaName
       hasAll := by
        rw [KeyedItems.get?_erase, if_neg isAll]
        exact dataset.hasAll }, .ok ())

section Adding

variable [DecidableEq Datatype]

/-- `schema_name or DEFAULT`. -/
def orDefault : Option String → String
  | none | some "" => DEFAULT
  | some name => name

/-- Whether a field of the schema differs from the dataset's field of its name. -/
def conflicts (dataset : Dataset Datatype) (schema : Schema Datatype) : Bool :=
  schema.items.any fun field =>
    match dataset.all.get? field.name with
    | some existing => field ≠ existing
    | none => false

/-- Merge a schema into the named one. -/
def mergeInto (dataset : Dataset Datatype) (schemaName : String) (schema : Schema Datatype) :
    Dataset Datatype × Except Error Unit :=
  match dataset.schema? schemaName with
  | none => (dataset, .error .keyError)
  | some target =>
      let (merged, result) := Schema.merge target schema.items
      (dataset.store schemaName merged, result)

/-- `add_schema`. -/
def addSchema (dataset : Dataset Datatype) (schema : Schema Datatype)
    (schemaName : Option String) : Dataset Datatype × Except Error Unit :=
  let schemaName := orDefault schemaName
  if dataset.conflicts schema then (dataset, .error .valueError)
  else
    match (dataset.ensure schemaName).mergeInto schemaName schema with
    | (merged, .error error) => (merged, .error error)
    | (merged, .ok ()) => merged.mergeInto ALL schema

/-- `add_fields`. -/
def addFields (dataset : Dataset Datatype) (fields : List (FieldInput Datatype))
    (schemaName : Option String) (mergeKeys : List String) :
    Dataset Datatype × Except Error Unit :=
  match processFields fields mergeKeys with
  | .error error => (dataset, .error error)
  | .ok schema => dataset.addSchema schema schemaName

end Adding

/-- The copies of the fields agree with those in `all`. -/
def Consistent (dataset : Dataset Datatype) : Prop :=
  ∀ schemaName schema, dataset.schema? schemaName = some schema →
    ∀ name field, schema.get? name = some field → dataset.all.get? name = some field

theorem consistent_empty : (empty : Dataset Datatype).Consistent := by
  have onlyAll (name : String) : (empty : Dataset Datatype).schema? name =
      if ALL = name then some KeyedItems.empty else none := by
    simp only [schema?, empty, KeyedItems.get?_set, KeyedItems.get?_empty]
    split <;> rfl
  intro schemaName schema found name field held
  rw [onlyAll] at found
  split at found
  · cases found
    cases held
  · cases found

theorem schema?_ensure (dataset : Dataset Datatype) (name other : String) :
    (dataset.ensure name).schema? other =
      if name = other ∧ dataset.schema? name = none then some KeyedItems.empty
      else dataset.schema? other := by
  unfold ensure
  cases found : dataset.schema? name with
  | some _ => simp
  | none => simp

theorem schema?_ensure_self (dataset : Dataset Datatype) (name : String) :
    (dataset.ensure name).schema? name =
      some ((dataset.schema? name).getD KeyedItems.empty) := by
  rw [schema?_ensure]
  cases found : dataset.schema? name with
  | some _ => simp
  | none => simp

@[simp]
theorem all_ensure (dataset : Dataset Datatype) (name : String) :
    (dataset.ensure name).all = dataset.all := by
  unfold ensure
  cases found : dataset.schema? name with
  | some _ => rfl
  | none =>
      apply all_store_of_ne
      rintro rfl
      rw [schema?_all] at found
      cases found

theorem Consistent.ensure {dataset : Dataset Datatype} (consistent : dataset.Consistent)
    (name : String) : (dataset.ensure name).Consistent := by
  intro schemaName schema found fieldName field held
  rw [all_ensure]
  rw [schema?_ensure] at found
  split at found
  · cases found
    cases held
  · exact consistent schemaName schema found fieldName field held

/-- Storing a schema whose fields are in `all` keeps the copies together. -/
theorem Consistent.store {dataset : Dataset Datatype} (consistent : dataset.Consistent)
    {name : String} {schema : Schema Datatype} (other : name ≠ ALL)
    (known : ∀ fieldName field, schema.get? fieldName = some field →
      dataset.all.get? fieldName = some field) :
    (dataset.store name schema).Consistent := by
  intro schemaName stored found fieldName field held
  rw [all_store_of_ne dataset schema other]
  rw [schema?_store] at found
  split at found
  · cases found
    exact known fieldName field held
  · exact consistent schemaName stored found fieldName field held

/-- Assigning a field keeps the copies together if and only if no other schema has an old one. -/
theorem consistent_setField_iff {dataset : Dataset Datatype} (consistent : dataset.Consistent)
    (field : Field Datatype) :
    (dataset.setField field).Consistent ↔
      ∀ schemaName schema, dataset.schema? schemaName = some schema → schemaName ≠ ALL →
        ∀ existing, schema.get? field.name = some existing → existing = field := by
  have after : (dataset.setField field).all = dataset.all.set field := all_store_all _ _
  constructor
  · intro agrees schemaName schema found other existing held
    have kept : (dataset.setField field).schema? schemaName = some schema := by
      rw [setField, schema?_store, if_neg (Ne.symm other)]
      exact found
    have copied := agrees schemaName schema kept field.name existing held
    rw [after, KeyedItems.get?_set, if_pos rfl] at copied
    exact (Option.some.inj copied).symm
  · intro noneOld schemaName schema found name held isHeld
    rw [after]
    by_cases isAll : ALL = schemaName
    · subst isAll
      rw [schema?_all, after] at found
      cases found
      exact isHeld
    · rw [setField, schema?_store, if_neg isAll] at found
      rw [KeyedItems.get?_set]
      split
      · rename_i same
        subst same
        rw [noneOld schemaName schema found (Ne.symm isAll) held isHeld]
      · exact consistent schemaName schema found name held isHeld

/-- The loop removes the field from the listed schemas, since no copy is a merge key. -/
theorem deleteFrom_spec (name : String) (schemaNames : List String) (dataset : Dataset Datatype)
    (gone : dataset.all.get? name = none)
    (noKey : ∀ schemaName schema field, dataset.schema? schemaName = some schema →
      schema.get? name = some field → field.isMergeKey = false) :
    ∃ deleted, dataset.deleteFrom name schemaNames = (deleted, .ok ()) ∧
      deleted.all = dataset.all ∧
      ∀ schemaName after, deleted.schema? schemaName = some after →
        ∃ before, dataset.schema? schemaName = some before ∧
          (∀ other field, after.get? other = some field → before.get? other = some field) ∧
          (schemaName ∈ schemaNames → after.get? name = none) := by
  induction schemaNames generalizing dataset with
  | nil => exact ⟨dataset, rfl, rfl, fun _ after found => ⟨after, found, by simp⟩⟩
  | cons first rest ih =>
      simp only [deleteFrom]
      cases found : dataset.schema? first with
      | none =>
          rcases ih dataset gone noKey with ⟨deleted, result, sameAll, holds⟩
          refine ⟨deleted, result, sameAll, ?_⟩
          intro schemaName after isAfter
          rcases holds schemaName after isAfter with ⟨before, isBefore, kept, removed⟩
          refine ⟨before, isBefore, kept, ?_⟩
          intro listed
          rcases List.mem_cons.mp listed with rfl | later
          · rw [isBefore] at found
            cases found
          · exact removed later
      | some schema =>
          cases held : schema.get? name with
          | none =>
              rcases ih dataset gone noKey with ⟨deleted, result, sameAll, holds⟩
              refine ⟨deleted, by simpa [held] using result, sameAll, ?_⟩
              intro schemaName after isAfter
              rcases holds schemaName after isAfter with ⟨before, isBefore, kept, removed⟩
              refine ⟨before, isBefore, kept, ?_⟩
              intro listed
              rcases List.mem_cons.mp listed with rfl | later
              · rw [isBefore] at found
                cases found
                cases isHeld : after.get? name with
                | none => rfl
                | some field => rw [kept name field isHeld] at held; cases held
              · exact removed later
          | some field =>
              have notAll : first ≠ ALL := by
                rintro rfl
                rw [schema?_all] at found
                cases found
                rw [gone] at held
                cases held
              have sameAll : (dataset.store first (schema.erase name)).all = dataset.all :=
                all_store_of_ne dataset _ notAll
              have stillNoKey : ∀ schemaName stored field,
                  (dataset.store first (schema.erase name)).schema? schemaName = some stored →
                  stored.get? name = some field → field.isMergeKey = false := by
                intro schemaName stored field isStored isHeld
                rw [schema?_store] at isStored
                split at isStored
                · cases isStored
                  rw [KeyedItems.get?_erase, if_pos rfl] at isHeld
                  cases isHeld
                · exact noKey schemaName stored field isStored isHeld
              rcases ih (dataset.store first (schema.erase name)) (sameAll ▸ gone) stillNoKey
                with ⟨deleted, result, restAll, holds⟩
              refine ⟨deleted, ?_, restAll.trans sameAll, ?_⟩
              · simpa [held, noKey first schema field found held] using result
              intro schemaName after isAfter
              rcases holds schemaName after isAfter with ⟨before, isBefore, kept, removed⟩
              rw [schema?_store] at isBefore
              split at isBefore
              · rename_i same
                cases isBefore
                subst same
                refine ⟨schema, found, ?_, ?_⟩
                · intro other field isField
                  have erased := kept other field isField
                  rw [KeyedItems.get?_erase] at erased
                  split at erased
                  · cases erased
                  · exact erased
                · intro _
                  cases isHeld : after.get? name with
                  | none => rfl
                  | some field =>
                      have erased := kept name field isHeld
                      rw [KeyedItems.get?_erase, if_pos rfl] at erased
                      cases erased
              · rename_i different
                refine ⟨before, isBefore, kept, ?_⟩
                intro listed
                rcases List.mem_cons.mp listed with rfl | later
                · exact absurd rfl different
                · exact removed later

/-- Deleting a field succeeds in all schemas or changes none. -/
theorem deleteField_spec {dataset : Dataset Datatype} (consistent : dataset.Consistent)
    (name : String) :
    (dataset.deleteField name).1.Consistent ∧
      ((dataset.deleteField name).2 ≠ .ok () → (dataset.deleteField name).1 = dataset) := by
  simp only [deleteField]
  cases found : dataset.all.get? name with
  | none => exact ⟨consistent, fun _ => rfl⟩
  | some field =>
      dsimp only
      by_cases isKey : field.isMergeKey
      · rw [if_pos isKey]
        exact ⟨consistent, fun _ => rfl⟩
      · rw [if_neg isKey]
        let deleted := dataset.store ALL (dataset.all.erase name)
        have allDeleted : deleted.all = dataset.all.erase name := all_store_all _ _
        have gone : deleted.all.get? name = none := by
          rw [allDeleted, KeyedItems.get?_erase, if_pos rfl]
        -- The copies are those of `all`, where the field is no merge key.
        have noKey : ∀ schemaName schema copy, deleted.schema? schemaName = some schema →
            schema.get? name = some copy → copy.isMergeKey = false := by
          intro schemaName schema copy isStored held
          rw [schema?_store] at isStored
          split at isStored
          · cases isStored
            rw [KeyedItems.get?_erase, if_pos rfl] at held
            cases held
          · have same := consistent schemaName schema isStored name copy held
            rw [found] at same
            cases same
            simpa using isKey
        rcases deleteFrom_spec name (deleted.schemas.items.map Prod.fst) deleted gone noKey
          with ⟨final, result, sameAll, holds⟩
        rw [show deleteFrom name (dataset.store ALL (dataset.all.erase name)) _ = _ from result]
        refine ⟨?_, fun raised => absurd rfl raised⟩
        intro schemaName after isAfter other copy held
        rcases holds schemaName after isAfter with ⟨before, isBefore, kept, removed⟩
        have listed : schemaName ∈ deleted.schemas.items.map Prod.fst := by
          by_contra missing
          have unknown := KeyedItems.get?_eq_none_iff.mpr missing
          simp [schema?, unknown] at isBefore
        have different : name ≠ other := by
          rintro rfl
          rw [removed listed] at held
          cases held
        rw [sameAll, allDeleted, KeyedItems.get?_erase, if_neg different]
        have heldBefore := kept other copy held
        rw [schema?_store] at isBefore
        split at isBefore
        · cases isBefore
          rwa [KeyedItems.get?_erase, if_neg different] at heldBefore
        · exact consistent schemaName before isBefore other copy heldBefore

/-- Deleting a schema succeeds or changes none. -/
theorem deleteSchema_spec {dataset : Dataset Datatype} (consistent : dataset.Consistent)
    (name : String) :
    (dataset.deleteSchema name).1.Consistent ∧
      ((dataset.deleteSchema name).2 ≠ .ok () → (dataset.deleteSchema name).1 = dataset) := by
  simp only [deleteSchema]
  split
  · exact ⟨consistent, fun _ => rfl⟩
  split
  · exact ⟨consistent, fun _ => rfl⟩
  rename_i notAll
  refine ⟨?_, fun raised => absurd rfl raised⟩
  intro schemaName schema found fieldName field held
  let remaining : Dataset Datatype :=
    { schemas := dataset.schemas.erase name
      hasAll := by
        rw [KeyedItems.get?_erase, if_neg notAll]
        exact dataset.hasAll }
  have remains (other : String) : remaining.schema? other =
      if name = other then none else dataset.schema? other := by
    simp only [schema?, remaining, KeyedItems.get?_erase]
    split <;> rfl
  have sameAll : remaining.all = dataset.all := by
    have isAll := schema?_all remaining
    rw [remains, if_neg notAll, schema?_all] at isAll
    exact (Option.some.inj isAll).symm
  have wasFound : remaining.schema? schemaName = some schema := found
  rw [remains] at wasFound
  split at wasFound
  · cases wasFound
  · exact sameAll ▸ consistent schemaName schema wasFound fieldName field held

section Adding

variable [DecidableEq Datatype]

theorem agree_of_not_conflicts {dataset : Dataset Datatype} {schema : Schema Datatype}
    (compatible : dataset.conflicts schema = false) :
    ∀ field ∈ schema.items, ∀ existing,
      dataset.all.get? field.name = some existing → existing = field := by
  intro field present existing found
  have passes := List.any_eq_false.mp compatible field present
  rw [found] at passes
  simp only [ne_eq, decide_not, Bool.not_eq_true', decide_eq_false_iff_not, not_not] at passes
  exact passes.symm

/-- A schema that agrees with the target and with `all` is merged into both. -/
theorem Consistent.merge {dataset : Dataset Datatype} (consistent : dataset.Consistent)
    {schema target : Schema Datatype} {schemaName : String}
    (found : dataset.schema? schemaName = some target)
    (agree : ∀ field ∈ schema.items, ∀ existing,
      dataset.all.get? field.name = some existing → existing = field) :
    ∃ once twice, dataset.mergeInto schemaName schema = (once, .ok ()) ∧
      once.mergeInto ALL schema = (twice, .ok ()) ∧ twice.Consistent := by
  have targetAgrees : ∀ field ∈ schema.items, ∀ existing,
      target.get? field.name = some existing → existing = field :=
    fun field present existing held =>
      agree field present existing (consistent schemaName target found _ existing held)
  rcases Schema.merge_spec schema.items target schema.distinct targetAgrees
    with ⟨merged, result, holds⟩
  let once := dataset.store schemaName merged
  -- What `all` has before it is merged into: more only if it is the target.
  have onceAll : ∀ name field, once.all.get? name = some field →
      dataset.all.get? name = some field ∨ (field ∈ schema.items ∧ field.name = name) := by
    intro name field held
    by_cases isAll : schemaName = ALL
    · subst isAll
      rw [all_store_all] at held
      rw [schema?_all] at found
      cases found
      exact (holds name field).mp held
    · rw [all_store_of_ne dataset merged isAll] at held
      exact Or.inl held
  have keptAll : ∀ name field, dataset.all.get? name = some field →
      once.all.get? name = some field := by
    intro name field held
    by_cases isAll : schemaName = ALL
    · subst isAll
      rw [schema?_all] at found
      cases found
      rw [all_store_all]
      exact (holds name field).mpr (Or.inl held)
    · rwa [all_store_of_ne dataset merged isAll]
  have onceAgrees : ∀ field ∈ schema.items, ∀ existing,
      once.all.get? field.name = some existing → existing = field := by
    intro field present existing held
    rcases onceAll field.name existing held with before | ⟨added, sameName⟩
    · exact agree field present existing before
    · exact List.inj_on_of_nodup_map schema.distinct added present sameName
  rcases Schema.merge_spec schema.items once.all schema.distinct onceAgrees
    with ⟨mergedAll, resultAll, holdsAll⟩
  refine ⟨once, once.store ALL mergedAll, ?_, ?_, ?_⟩
  · simp [mergeInto, found, result, once]
  · simp [mergeInto, schema?_all, resultAll]
  intro otherName other isOther name field held
  rw [all_store_all, holdsAll]
  rw [schema?_store] at isOther
  split at isOther
  · cases isOther
    exact (holdsAll name field).mp held
  · rw [schema?_store] at isOther
    split at isOther
    · cases isOther
      rcases (holds name field).mp held with before | added
      · exact Or.inl (keptAll name field (consistent schemaName target found name field before))
      · exact Or.inr added
    · exact Or.inl (keptAll name field (consistent otherName other isOther name field held))

/-- Adding a schema succeeds or changes none. -/
theorem addSchema_spec {dataset : Dataset Datatype} (consistent : dataset.Consistent)
    (schema : Schema Datatype) (schemaName : Option String) :
    (dataset.addSchema schema schemaName).1.Consistent ∧
      ((dataset.addSchema schema schemaName).2 ≠ .ok () →
        (dataset.addSchema schema schemaName).1 = dataset) := by
  simp only [addSchema]
  split
  · exact ⟨consistent, fun _ => rfl⟩
  rename_i compatible
  have agree := agree_of_not_conflicts (by simpa using compatible)
  rcases (consistent.ensure (orDefault schemaName)).merge
    (schema?_ensure_self dataset (orDefault schemaName))
    (by simpa only [all_ensure] using agree) with ⟨once, twice, first, second, isConsistent⟩
  rw [first]
  dsimp only
  rw [second]
  exact ⟨isConsistent, fun raised => absurd rfl raised⟩

theorem addFields_spec {dataset : Dataset Datatype} (consistent : dataset.Consistent)
    (fields : List (FieldInput Datatype)) (schemaName : Option String)
    (mergeKeys : List String) :
    (dataset.addFields fields schemaName mergeKeys).1.Consistent ∧
      ((dataset.addFields fields schemaName mergeKeys).2 ≠ .ok () →
        (dataset.addFields fields schemaName mergeKeys).1 = dataset) := by
  simp only [addFields]
  cases processFields fields mergeKeys with
  | error _ => exact ⟨consistent, fun _ => rfl⟩
  | ok schema => exact addSchema_spec consistent schema schemaName

end Adding

/-- The schema and its fields are still there after the loop. -/
theorem addNamed_keeps (schemaName : String) (names : List String)
    (dataset : Dataset Datatype) {schema : Schema Datatype}
    (found : dataset.schema? schemaName = some schema) :
    ∃ after, (dataset.addNamed schemaName names).1.schema? schemaName = some after ∧
      ∀ name field, schema.get? name = some field → after.get? name = some field := by
  induction names generalizing dataset schema with
  | nil => exact ⟨schema, found, fun _ _ held => held⟩
  | cons first rest ih =>
      simp only [addNamed, found]
      cases isField : dataset.all.get? first with
      | none => exact ⟨schema, found, fun _ _ held => held⟩
      | some added =>
          simp only [Schema.addField]
          by_cases present : schema.contains added.name
          · rw [if_pos present]
            exact ⟨schema, found, fun _ _ held => held⟩
          · rw [if_neg present]
            have isAdded : (dataset.store schemaName (schema.set added)).schema? schemaName =
                some (schema.set added) := by
              rw [schema?_store, if_pos rfl]
            rcases ih _ isAdded with ⟨after, isAfter, kept⟩
            refine ⟨after, isAfter, ?_⟩
            intro name field held
            apply kept
            rw [KeyedItems.get?_set]
            split
            · rename_i same
              rw [same, KeyedItems.contains, held] at present
              exact absurd rfl present
            · exact held

/--
The loop that adds fields of `all` to a schema keeps the copies together. It
ends if the names are new to the schema and each given once, and otherwise
leaves the dataset as it was only when it stops at the first name.
-/
theorem addNamed_spec (schemaName : String) (names : List String) (dataset : Dataset Datatype)
    (consistent : dataset.Consistent) {schema : Schema Datatype}
    (found : dataset.schema? schemaName = some schema)
    (known : ∀ name ∈ names, dataset.all.contains name) :
    (dataset.addNamed schemaName names).1.Consistent ∧
      ((dataset.addNamed schemaName names).2 = .ok () ↔
        names.Nodup ∧ ∀ name ∈ names, schema.get? name = none) ∧
      ((dataset.addNamed schemaName names).2 ≠ .ok () →
        ((dataset.addNamed schemaName names).1 = dataset ↔
          ∃ first ∈ names.head?, (schema.get? first).isSome)) := by
  induction names generalizing dataset schema with
  | nil => exact ⟨consistent, by simp [addNamed], by simp [addNamed]⟩
  | cons first rest ih =>
      rcases Option.isSome_iff_exists.mp (known first (by simp)) with ⟨field, isField⟩
      have named : field.name = first := KeyedItems.key_of_get? isField
      simp only [addNamed, found, isField, Schema.addField, named]
      by_cases present : schema.contains first
      · rw [if_pos present]
        refine ⟨consistent, ?_, ?_⟩
        · constructor
          · intro ended
            cases ended
          · rintro ⟨_, fresh⟩
            rw [KeyedItems.contains, fresh first (by simp)] at present
            cases present
        · intro _
          simpa [KeyedItems.contains] using present
      · rw [if_neg present]
        have fresh : schema.get? first = none := by simpa [KeyedItems.contains] using present
        have notAll : schemaName ≠ ALL := by
          rintro rfl
          rw [schema?_all] at found
          cases found
          rw [isField] at fresh
          cases fresh
        let added := dataset.store schemaName (schema.set field)
        have sameAll : added.all = dataset.all := all_store_of_ne dataset _ notAll
        have isAdded : added.schema? schemaName = some (schema.set field) := by
          rw [schema?_store, if_pos rfl]
        have stillConsistent : added.Consistent := by
          apply consistent.store notAll
          intro name other held
          rw [KeyedItems.get?_set] at held
          split at held
          · rename_i same
            cases held
            rw [← same, named]
            exact isField
          · exact consistent schemaName schema found name other held
        rcases ih added stillConsistent isAdded (fun name later => by
          rw [sameAll]; exact known name (by simp [later])) with ⟨after, ends, changed⟩
        refine ⟨after, ?_, ?_⟩
        · change (added.addNamed schemaName rest).2 = .ok () ↔ _
          rw [ends, List.nodup_cons]
          simp only [KeyedItems.get?_set, named]
          constructor
          · rintro ⟨distinct, others⟩
            have notLater : first ∉ rest := by
              intro later
              have none := others first later
              rw [if_pos rfl] at none
              cases none
            refine ⟨⟨notLater, distinct⟩, ?_⟩
            intro name present
            rcases List.mem_cons.mp present with rfl | later
            · exact fresh
            · have isNone := others name later
              split at isNone
              · cases isNone
              · exact isNone
          · rintro ⟨⟨notLater, distinct⟩, others⟩
            refine ⟨distinct, fun name later => ?_⟩
            rw [if_neg (fun same : first = name => notLater (same ▸ later))]
            exact others name (by simp [later])
        · intro _
          constructor
          · intro unchanged
            rcases addNamed_keeps schemaName rest added isAdded with ⟨final, isFinal, kept⟩
            have held := kept first field (by rw [KeyedItems.get?_set, if_pos named])
            change (added.addNamed schemaName rest).1 = dataset at unchanged
            rw [unchanged, found] at isFinal
            cases isFinal
            rw [fresh] at held
            cases held
          · rintro ⟨name, isFirst, isPresent⟩
            simp only [List.head?_cons, Option.mem_def, Option.some.injEq] at isFirst
            rw [← isFirst, fresh] at isPresent
            cases isPresent

/--
Assigning the names of a schema keeps the copies together, and leaves the
dataset as it was when it raises, if and only if the assignment is a safe one.
-/
theorem setSchema_spec {dataset : Dataset Datatype} (consistent : dataset.Consistent)
    (schemaName : String) (fieldNames : List String) :
    (dataset.setSchema schemaName fieldNames).1.Consistent ∧
      (((dataset.setSchema schemaName fieldNames).2 ≠ .ok () →
          (dataset.setSchema schemaName fieldNames).1 = dataset) ↔
        (∃ name ∈ fieldNames, dataset.all.get? name = none) ∨
        (fieldNames.Nodup ∧ ∀ schema, dataset.schema? schemaName = some schema →
          ∀ name ∈ fieldNames, schema.get? name = none) ∨
        ∃ first ∈ fieldNames.head?, ∃ schema, dataset.schema? schemaName = some schema ∧
          (schema.get? first).isSome) := by
  simp only [setSchema]
  by_cases known : fieldNames.all dataset.all.contains
  · rw [if_pos known]
    have eachKnown : ∀ name ∈ fieldNames, dataset.all.contains name := by simpa using known
    have noneUnknown : ¬∃ name ∈ fieldNames, dataset.all.get? name = none := by
      rintro ⟨name, present, unknown⟩
      have isKnown := eachKnown name present
      rw [KeyedItems.contains, unknown] at isKnown
      cases isKnown
    rcases addNamed_spec schemaName fieldNames _ (consistent.ensure schemaName)
      (schema?_ensure_self dataset schemaName) (by simpa only [all_ensure] using eachKnown)
      with ⟨after, ends, unchanged⟩
    refine ⟨after, ?_⟩
    cases found : dataset.schema? schemaName with
    | some schema =>
        have same : dataset.ensure schemaName = dataset := by simp [ensure, found]
        rw [same] at ends unchanged ⊢
        simp only [found, Option.getD_some] at ends unchanged
        constructor
        · intro restored
          by_cases ended : (dataset.addNamed schemaName fieldNames).2 = .ok ()
          · refine Or.inr (Or.inl ⟨(ends.mp ended).1, ?_⟩)
            rintro _ ⟨⟩
            exact (ends.mp ended).2
          · rcases (unchanged ended).mp (restored ended) with ⟨first, isFirst, present⟩
            exact Or.inr (Or.inr ⟨first, isFirst, schema, rfl, present⟩)
        · rintro (unknown | ⟨distinct, fresh⟩ | ⟨first, isFirst, _, ⟨⟩, present⟩) raised
          · exact absurd unknown noneUnknown
          · exact absurd (ends.mpr ⟨distinct, fresh schema rfl⟩) raised
          · exact (unchanged raised).mpr ⟨first, isFirst, present⟩
    | none =>
        simp only [found, Option.getD_none] at ends unchanged
        constructor
        · intro restored
          by_cases ended : ((dataset.ensure schemaName).addNamed schemaName fieldNames).2 = .ok ()
          · refine Or.inr (Or.inl ⟨(ends.mp ended).1, ?_⟩)
            rintro _ ⟨⟩
          · -- A schema was created and filled before the loop stopped.
            rcases addNamed_keeps schemaName fieldNames _ (schema?_ensure_self dataset schemaName)
              with ⟨after, isAfter, _⟩
            rw [restored ended, found] at isAfter
            cases isAfter
        · rintro (unknown | ⟨distinct, _⟩ | ⟨_, _, _, ⟨⟩, _⟩) raised
          · exact absurd unknown noneUnknown
          · exact absurd (ends.mpr ⟨distinct, by simp⟩) raised
  · rw [if_neg known]
    refine ⟨consistent, fun _ => ?_, fun _ _ => rfl⟩
    left
    simpa [KeyedItems.contains] using known

end Dataset

/-- An operation on the fields and schemas of a dataset. -/
inductive Operation (Datatype : Type u)
  /-- `add_fields`. -/
  | addFields (fields : List (FieldInput Datatype)) (schemaName : Option String)
      (mergeKeys : List String)
  /-- `add_schema`. -/
  | addSchema (schema : Schema Datatype) (schemaName : Option String)
  /-- `dataset.fields[name] = value`, where the value is `none` if it is no `Field`. -/
  | setField (name : String) (value : Option (Field Datatype))
  /-- `del dataset.fields[name]`. -/
  | deleteField (name : String)
  /-- `dataset.schemas[name] = field_names`. -/
  | setSchema (name : String) (fieldNames : List String)
  /-- `del dataset.schemas[name]`. -/
  | deleteSchema (name : String)

namespace Dataset

variable [DecidableEq Datatype]

/-- Perform an operation: the dataset it leaves, and the exception if it raises. -/
def perform (dataset : Dataset Datatype) : Operation Datatype → Dataset Datatype × Except Error Unit
  | .addFields fields schemaName mergeKeys => dataset.addFields fields schemaName mergeKeys
  | .addSchema schema schemaName => dataset.addSchema schema schemaName
  | .setField _ (some field) => (dataset.setField field, .ok ())
  | .setField _ none => (dataset, .error .typeError)
  | .deleteField name => dataset.deleteField name
  | .setSchema name fieldNames => dataset.setSchema name fieldNames
  | .deleteSchema name => dataset.deleteSchema name

/-- The constructor, which adds the given schema unless it is empty. -/
def init (schema : Schema Datatype) (schemaName : Option String) : Dataset Datatype :=
  if schema.items.isEmpty then empty else (empty.addSchema schema schemaName).1

/--
Throughout the operations the copies of the fields agree, and an operation that
raises leaves the dataset as it was.
-/
def StaysConsistent (dataset : Dataset Datatype) : List (Operation Datatype) → Prop
  | [] => dataset.Consistent
  | operation :: rest =>
      dataset.Consistent ∧
        ((dataset.perform operation).2 ≠ .ok () → (dataset.perform operation).1 = dataset) ∧
        (dataset.perform operation).1.StaysConsistent rest

/--
The assignments that keep the copies together: of a field that no other schema
has in another form, and of field names that are new to the schema and each
given once, or of which the first is already in the schema or one is unknown.
-/
def SafeOn (dataset : Dataset Datatype) : Operation Datatype → Prop
  | .setField _ (some field) =>
      ∀ schemaName schema, dataset.schema? schemaName = some schema → schemaName ≠ ALL →
        ∀ existing, schema.get? field.name = some existing → existing = field
  | .setSchema schemaName fieldNames =>
      (∃ name ∈ fieldNames, dataset.all.get? name = none) ∨
      (fieldNames.Nodup ∧ ∀ schema, dataset.schema? schemaName = some schema →
        ∀ name ∈ fieldNames, schema.get? name = none) ∨
      ∃ first ∈ fieldNames.head?, ∃ schema, dataset.schema? schemaName = some schema ∧
        (schema.get? first).isSome
  | _ => True

/-- Each operation is a safe one on the dataset it is performed on. -/
def EverySafe (dataset : Dataset Datatype) : List (Operation Datatype) → Prop
  | [] => True
  | operation :: rest =>
      dataset.SafeOn operation ∧ (dataset.perform operation).1.EverySafe rest

/-- One operation keeps the copies together and undoes its failures exactly if it is safe. -/
theorem perform_spec {dataset : Dataset Datatype} (consistent : dataset.Consistent)
    (operation : Operation Datatype) :
    ((dataset.perform operation).1.Consistent ∧
        ((dataset.perform operation).2 ≠ .ok () → (dataset.perform operation).1 = dataset)) ↔
      dataset.SafeOn operation := by
  cases operation with
  | addFields fields schemaName mergeKeys =>
      exact iff_true_intro (addFields_spec consistent fields schemaName mergeKeys)
  | addSchema schema schemaName =>
      exact iff_true_intro (addSchema_spec consistent schema schemaName)
  | setField name value =>
      cases value with
      | none => exact iff_true_intro ⟨consistent, fun _ => rfl⟩
      | some field =>
          have assigned := consistent_setField_iff consistent field
          exact ⟨fun holds => assigned.mp holds.1,
            fun safe => ⟨assigned.mpr safe, fun raised => absurd rfl raised⟩⟩
  | deleteField name => exact iff_true_intro (deleteField_spec consistent name)
  | setSchema name fieldNames =>
      rcases setSchema_spec consistent name fieldNames with ⟨after, restored⟩
      exact ⟨fun holds => restored.mp holds.2, fun safe => ⟨after, restored.mpr safe⟩⟩
  | deleteSchema name => exact iff_true_intro (deleteSchema_spec consistent name)

theorem staysConsistent_iff_of_consistent (operations : List (Operation Datatype))
    {dataset : Dataset Datatype} (consistent : dataset.Consistent) :
    dataset.StaysConsistent operations ↔ dataset.EverySafe operations := by
  induction operations generalizing dataset with
  | nil => exact iff_true_intro consistent
  | cons operation rest ih =>
      have step := perform_spec consistent operation
      simp only [StaysConsistent, EverySafe]
      constructor
      · rintro ⟨_, undone, later⟩
        have after : (dataset.perform operation).1.Consistent := by
          cases rest with
          | nil => exact later
          | cons _ _ => exact later.1
        exact ⟨step.mp ⟨after, undone⟩, (ih after).mp later⟩
      · rintro ⟨safe, later⟩
        rcases step.mpr safe with ⟨after, undone⟩
        exact ⟨consistent, undone, (ih after).mpr later⟩

theorem consistent_init (schema : Schema Datatype) (schemaName : Option String) :
    (init schema schemaName).Consistent := by
  simp only [init]
  split
  · exact consistent_empty
  · exact (addSchema_spec consistent_empty schema schemaName).1

/--
Over every run on a new dataset the copies agree and failures leave no trace if
and only if each operation is safe where it is performed.
-/
theorem staysConsistent_iff (schema : Schema Datatype) (schemaName : Option String)
    (operations : List (Operation Datatype)) :
    (init schema schemaName).StaysConsistent operations ↔
      (init schema schemaName).EverySafe operations :=
  staysConsistent_iff_of_consistent operations (consistent_init schema schemaName)

/-- A field that is assigned in another form is replaced in `all` only. -/
theorem not_staysConsistent_setField :
    ¬(init KeyedItems.empty none : Dataset String).StaysConsistent
      [.addFields [.tuple "price" "int32"] none [],
        .setField "price"
          (some { name := "price", datatype := "float", isMergeKey := false })] := by
  intro stays
  let operations : List (Operation String) :=
    [.addFields [.tuple "price" "int32"] none [],
      .setField "price" (some { name := "price", datatype := "float", isMergeKey := false })]
  let final := operations.foldl (fun dataset operation => (dataset.perform operation).1)
    (init KeyedItems.empty none)
  have agrees : final.Consistent := stays.2.2.2.2
  have isDefault : final.schema? DEFAULT = some ((final.schema? DEFAULT).get (by decide)) := by
    simp
  have copied := agrees DEFAULT _ isDefault "price"
    { name := "price", datatype := "int32", isMergeKey := false } (by decide)
  exact absurd copied (by decide)

end Dataset

end Deltacat.Experimental.Rivulet.DatasetSchemas
