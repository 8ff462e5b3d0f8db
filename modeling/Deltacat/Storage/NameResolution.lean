import Deltacat.Library.Run
import Deltacat.Storage.SettledCatalog
import Mathlib.Tactic

/-!
# Names resolve to live objects

Over every sequence of committed transactions, a name should resolve to exactly
the live object that carries it, and a name that was renamed away or deleted to
nothing. Every write operation is seen here as a change of one object
(`ObjectChange`): an object with a former name and a new one, where a create has
no former name, a delete no new one, and a replacement changes the identifier.
A change keeps the names resolved (`ObjectChange.resolved`) if the operation
describes the object as it is (`Current`).

One kind of operation does not: an update whose source and destination differ in
their identifiers but not in their locators. It takes the mapping for unchanged,
so that the name still leads to the source, which it deletes
(`not_namesResolve_run`).
-/

namespace Deltacat.Storage

open Deltacat.Library MetafileRevisionInfo

namespace Metafile

/-- The name under which an object has a mapping, if it has one. -/
def mutableName (metafile : Metafile) : Option LocatorName :=
  if metafile.locator.name.immutableId = none then some metafile.locator.name
  else metafile.locatorAlias.map (·.name)

theorem mutableName_toSerializable (metafile : Metafile) (parentIds : List String) :
    { metafile with ancestorIds := parentIds }.toSerializable.mutableName =
      metafile.mutableName := by
  unfold toSerializable mutableName locatorAlias
  by_cases isStaged : metafile.state = some .staged
  · cases isName : metafile.locator.name <;> simp [isName, isStaged]
  · cases isName : metafile.locator.name <;> simp [isName, isStaged]

end Metafile

theorem immutableId_of_mutableName {metafile : Metafile} {name : LocatorName}
    (isName : metafile.mutableName = some name) : name.immutableId = none := by
  unfold Metafile.mutableName at isName
  split at isName
  case isTrue isMutable =>
    cases isName
    exact isMutable
  case isFalse =>
    unfold Metafile.locatorAlias at isName
    split at isName
    · simp at isName
    · split at isName
      all_goals simp at isName
      all_goals subst isName
      all_goals rfl

/-- Objects by parent and identifier, and the identifiers that names are mapped to. -/
abbrev LiveStore := Store RevisionDir RevisionContent

/-- Names that were renamed away or deleted, with the parents they were used under. -/
abbrev RetiredNames := Set (List String × LocatorName)

/--
Every name of a kind resolves to the object that carries it, and no retired name
to anything.
-/
structure Resolved (kind : Set LocatorName) (store : LiveStore) (retired : RetiredNames) :
    Prop where
  mapped : ∀ parentIds, ∀ name ∈ kind, ∀ content,
    store ⟨parentIds, .mapping name⟩ = some content →
      ∃ id metafile, content = .mapping id ∧
        store ⟨parentIds, .metafile id⟩ = some (.metafile metafile) ∧
        metafile.mutableName = some name
  named : ∀ parentIds id metafile, ∀ name ∈ kind,
    store ⟨parentIds, .metafile id⟩ = some (.metafile metafile) →
    metafile.mutableName = some name → store ⟨parentIds, .mapping name⟩ = some (.mapping id)
  retired : ∀ parentIds, ∀ name ∈ kind, (parentIds, name) ∈ retired →
    store ⟨parentIds, .mapping name⟩ = none

/--
A change of one object: its former identifier and name, and its new ones with
its new content, which is missing if the object is deleted.
-/
structure ObjectChange (store final : LiveStore) (parentIds : List String)
    (formerId : String) (formerName : Option LocatorName) (newId : String)
    (newMetafile : Option Metafile) : Prop where
  /-- The object is known under its former name, or it does not exist. -/
  former : (∃ metafile, store ⟨parentIds, .metafile formerId⟩ = some (.metafile metafile) ∧
      metafile.mutableName = formerName) ∨
    store ⟨parentIds, .metafile formerId⟩ = none ∧ formerName = none
  newFree : newId ≠ formerId → store ⟨parentIds, .metafile newId⟩ = none
  nameFree : ∀ name, newMetafile.bind Metafile.mutableName = some name →
    formerName ≠ some name → store ⟨parentIds, .mapping name⟩ = none
  newObject : final ⟨parentIds, .metafile newId⟩ = newMetafile.map .metafile
  formerObject : newId ≠ formerId → final ⟨parentIds, .metafile formerId⟩ = none
  otherObjects : ∀ parents id, ¬(parents = parentIds ∧ id = formerId) →
    ¬(parents = parentIds ∧ id = newId) →
      final ⟨parents, .metafile id⟩ = store ⟨parents, .metafile id⟩
  newMapping : ∀ name, newMetafile.bind Metafile.mutableName = some name →
    final ⟨parentIds, .mapping name⟩ = some (.mapping newId)
  formerMapping : ∀ name, formerName = some name →
    newMetafile.bind Metafile.mutableName ≠ some name → final ⟨parentIds, .mapping name⟩ = none
  otherMappings : ∀ parents name, ¬(parents = parentIds ∧ formerName = some name) →
    ¬(parents = parentIds ∧ newMetafile.bind Metafile.mutableName = some name) →
      final ⟨parents, .mapping name⟩ = store ⟨parents, .mapping name⟩

namespace ObjectChange

variable {store final : LiveStore} {parentIds : List String} {formerId newId : String}
  {formerName : Option LocatorName} {newMetafile : Option Metafile} {kind : Set LocatorName}

/-- The names that are retired after a change. -/
def retiredAfter (retired : RetiredNames) (parentIds : List String)
    (formerName newName : Option LocatorName) : RetiredNames :=
  { entry | (entry ∈ retired ∨ (entry.1 = parentIds ∧ formerName = some entry.2)) ∧
    ¬(entry.1 = parentIds ∧ newName = some entry.2) }

theorem mapped (change : ObjectChange store final parentIds formerId formerName newId newMetafile)
    {retired : RetiredNames} (resolved : Resolved kind store retired) (parents : List String)
    (name : LocatorName) (inKind : name ∈ kind) (content : RevisionContent)
    (isMapped : final ⟨parents, .mapping name⟩ = some content) :
    ∃ id metafile, content = .mapping id ∧
      final ⟨parents, .metafile id⟩ = some (.metafile metafile) ∧
      metafile.mutableName = some name := by
  by_cases isNew : parents = parentIds ∧ newMetafile.bind Metafile.mutableName = some name
  · rcases isNew with ⟨rfl, isNew⟩
    rcases Option.bind_eq_some_iff.mp isNew with ⟨metafile, isMetafile, isName⟩
    refine ⟨newId, metafile, ?_, ?_, isName⟩
    · exact Option.some.inj (isMapped.symm.trans (change.newMapping name isNew))
    · rw [change.newObject, isMetafile]
      rfl
  · by_cases isFormer : parents = parentIds ∧ formerName = some name
    · rcases isFormer with ⟨rfl, isFormer⟩
      have removed := change.formerMapping name isFormer fun isName => isNew ⟨rfl, isName⟩
      rw [removed] at isMapped
      cases isMapped
    · -- An untouched name belongs to another object, which is untouched, too.
      rw [change.otherMappings parents name isFormer isNew] at isMapped
      rcases resolved.mapped parents name inKind content isMapped with
        ⟨id, metafile, isContent, isObject, isName⟩
      refine ⟨id, metafile, isContent, ?_, isName⟩
      rw [change.otherObjects parents id _ _]
      · exact isObject
      · rintro ⟨rfl, rfl⟩
        rcases change.former with ⟨formerMetafile, isFormerObject, isFormerName⟩ | ⟨absent, _⟩
        · rw [isFormerObject] at isObject
          cases isObject
          exact isFormer ⟨rfl, isFormerName.symm.trans isName⟩
        · rw [absent] at isObject
          cases isObject
      · rintro ⟨rfl, rfl⟩
        by_cases sameId : id = formerId
        · subst sameId
          rcases change.former with ⟨formerMetafile, isFormerObject, isFormerName⟩ | ⟨absent, _⟩
          · rw [isFormerObject] at isObject
            cases isObject
            exact isFormer ⟨rfl, isFormerName.symm.trans isName⟩
          · rw [absent] at isObject
            cases isObject
        · rw [change.newFree sameId] at isObject
          cases isObject

theorem named (change : ObjectChange store final parentIds formerId formerName newId newMetafile)
    {retired : RetiredNames} (resolved : Resolved kind store retired) (parents : List String)
    (id : String) (metafile : Metafile) (name : LocatorName) (inKind : name ∈ kind)
    (isObject : final ⟨parents, .metafile id⟩ = some (.metafile metafile))
    (isName : metafile.mutableName = some name) :
    final ⟨parents, .mapping name⟩ = some (.mapping id) := by
  by_cases isNew : parents = parentIds ∧ id = newId
  · rcases isNew with ⟨rfl, rfl⟩
    rw [change.newObject] at isObject
    rcases Option.map_eq_some_iff.mp isObject with ⟨_, isMetafile, ⟨⟩⟩
    apply change.newMapping
    rw [isMetafile]
    exact isName
  · by_cases isFormer : parents = parentIds ∧ id = formerId
    · rcases isFormer with ⟨rfl, rfl⟩
      have removed := change.formerObject fun same => isNew ⟨rfl, same.symm⟩
      rw [removed] at isObject
      cases isObject
    · rw [change.otherObjects parents id isFormer isNew] at isObject
      have wasMapped := resolved.named parents id metafile name inKind isObject isName
      rw [change.otherMappings parents name _ _]
      · exact wasMapped
      · rintro ⟨rfl, isFormerName⟩
        -- The former name leads to the changed object and not to this one.
        rcases change.former with ⟨formerMetafile, isFormerObject, sameName⟩ | ⟨_, noName⟩
        · have formerMapped := resolved.named parents formerId formerMetafile name inKind
            isFormerObject (sameName.trans isFormerName)
          rw [formerMapped] at wasMapped
          cases wasMapped
          exact isFormer ⟨rfl, rfl⟩
        · rw [noName] at isFormerName
          cases isFormerName
      · rintro ⟨rfl, isNewName⟩
        by_cases isFormerName : formerName = some name
        · rcases change.former with ⟨formerMetafile, isFormerObject, sameName⟩ | ⟨_, noName⟩
          · have formerMapped := resolved.named parents formerId formerMetafile name inKind
              isFormerObject (sameName.trans isFormerName)
            rw [formerMapped] at wasMapped
            cases wasMapped
            exact isFormer ⟨rfl, rfl⟩
          · rw [noName] at isFormerName
            cases isFormerName
        · rw [change.nameFree name isNewName isFormerName] at wasMapped
          cases wasMapped

/-- A change keeps the names resolved. -/
theorem resolved
    (change : ObjectChange store final parentIds formerId formerName newId newMetafile)
    {retired : RetiredNames} (wasResolved : Resolved kind store retired) :
    Resolved kind final (retiredAfter retired parentIds formerName
      (newMetafile.bind Metafile.mutableName)) where
  mapped := change.mapped wasResolved
  named := change.named wasResolved
  retired := by
    rintro parents name inKind ⟨wasRetired, notNew⟩
    by_cases isFormer : parents = parentIds ∧ formerName = some name
    · rcases isFormer with ⟨rfl, isFormer⟩
      exact change.formerMapping name isFormer fun isNew => notNew ⟨rfl, isNew⟩
    · rw [change.otherMappings parents name isFormer notNew]
      rcases wasRetired with wasRetired | isFormerName
      · exact wasResolved.retired parents name inKind wasRetired
      · exact absurd isFormerName isFormer

end ObjectChange

/-- The live object with the identifier of a metafile has the name that the metafile has. -/
def Describes (store : LiveStore) (parentIds : List String) (metafile : Metafile) : Prop :=
  ∃ current, store ⟨parentIds, .metafile metafile.id⟩ = some (.metafile current) ∧
    current.mutableName = metafile.mutableName

namespace TransactionOperation

/--
An operation fits the objects as they are. What it changes or deletes has the
name that it says, no name is taken from an object that lives on, and a
replacement has a new identifier. The last condition excludes the updates that
replace an object under an unchanged locator.
-/
def Current (store : LiveStore) (parentIds : List String) : TransactionOperation → Prop
  | create _ => True
  | delete dest => Describes store parentIds dest
  | update src dest sameClass =>
      Describes store parentIds src ∧
        (src.locator.name.immutableId = none ↔ dest.locator.name.immutableId = none) ∧
        (dest.mutableName = none → src.mutableName = none) ∧
        (src.id ≠ dest.id → store ⟨parentIds, .metafile dest.id⟩ = none) ∧
        (src.id ≠ dest.id → dest.mutableName ≠ none →
          (update src dest sameClass).mutableLocators.1 ≠
            (update src dest sameClass).mutableLocators.2)
  | _ => False

/-- The name that an operation takes away or keeps. -/
def formerName : TransactionOperation → Option LocatorName
  | update src _ _ => src.mutableName
  | delete dest => dest.mutableName
  | _ => none

/-- The name that an operation gives or keeps. -/
def newName : TransactionOperation → Option LocatorName
  | create dest => dest.mutableName
  | update _ dest _ => dest.mutableName
  | _ => none

theorem mutableLocators_dest (operation : TransactionOperation) :
    operation.mutableLocators.2.map (·.name) = operation.destMetafile.mutableName := by
  unfold mutableLocators Metafile.mutableName
  simp only
  split
  · rfl
  · cases operation.destMetafile.locatorAlias <;> rfl

theorem mutableLocators_src {src dest : Metafile}
    {sameClass : src.metafileClass = dest.metafileClass}
    (sameKind : src.locator.name.immutableId = none ↔ dest.locator.name.immutableId = none)
    (keepsName : dest.mutableName = none → src.mutableName = none) :
    (update src dest sameClass).mutableLocators.1.map (·.name) = src.mutableName := by
  by_cases isImmutable : dest.locator.name.immutableId = none
  · simp [mutableLocators, srcMetafile, destMetafile, Metafile.mutableName, isImmutable,
      sameKind.mpr isImmutable]
  · have srcImmutable : ¬src.locator.name.immutableId = none := fun isMutable =>
      isImmutable (sameKind.mp isMutable)
    simp only [mutableLocators, srcMetafile, destMetafile, isImmutable, if_false]
    by_cases isAlias : dest.locatorAlias.isSome
    · simp [Metafile.mutableName, srcImmutable, isAlias]
    · have unnamed := keepsName (by
        simpa [Metafile.mutableName, isImmutable] using isAlias)
      simp [unnamed, isAlias]

theorem locatorWrites_create (dest : Metafile) (parentIds : List String) :
    (create dest).locatorWrites parentIds = (create dest).mutableLocators.2.toList.map
      fun locator => locatorWrite parentIds locator .create dest.id := by
  unfold locatorWrites
  rcases (create dest).mutableLocators with ⟨_, _ | locator⟩ <;> rfl

theorem locatorWrites_delete (dest : Metafile) (parentIds : List String) :
    (delete dest).locatorWrites parentIds = (delete dest).mutableLocators.2.toList.map
      fun locator => locatorWrite parentIds locator .delete dest.id := by
  unfold locatorWrites
  rcases (delete dest).mutableLocators with ⟨_, _ | locator⟩ <;> rfl

end TransactionOperation

section Operations

open TransactionOperation

variable {store final : LiveStore} {parentIds : List String}

theorem create_change {dest : Metafile}
    (performs : Performs store
      (((create dest).revisionWrites parentIds).map RevisionWrite.toStoreWrite) final) :
    ObjectChange store final parentIds dest.id none dest.id
      (some (writtenMetafile parentIds dest)) := by
  have isName : (writtenMetafile parentIds dest).mutableName =
      (create dest).mutableLocators.2.map (·.name) :=
    (dest.mutableName_toSerializable parentIds).trans (mutableLocators_dest (create dest)).symm
  rw [revisionWrites, locatorWrites_create] at performs
  cases isLocator : (create dest).mutableLocators.2 with
  | none =>
      rw [isLocator] at performs isName
      simp only [Option.toList_none, List.map_nil, List.nil_append, metafileWrites, srcMetafile,
        destMetafile, type, List.map_cons, performs_metafileWrite, performs_nil, if_true,
        reduceCtorEq, if_false] at performs
      rcases performs with ⟨absent, rfl⟩
      constructor <;> simp_all
  | some locator =>
      rw [isLocator] at performs isName
      simp only [Option.toList_some, List.map_nil, List.cons_append, List.nil_append,
        metafileWrites, srcMetafile, destMetafile, type, List.map_cons, performs_locatorWrite,
        performs_metafileWrite, performs_nil, if_true, reduceCtorEq, if_false] at performs
      rcases performs with ⟨nameFree, absent, rfl⟩
      constructor
      case otherMappings =>
        intro parents name _ notNew
        have untouched : ¬(parents = parentIds ∧ name = locator.name) := by
          rintro ⟨isParent, rfl⟩
          exact notNew ⟨isParent, isName⟩
        simp [untouched]
      all_goals simp_all

theorem delete_change {dest : Metafile} (describes : Describes store parentIds dest)
    (performs : Performs store
      (((delete dest).revisionWrites parentIds).map RevisionWrite.toStoreWrite) final) :
    ObjectChange store final parentIds dest.id dest.mutableName dest.id none := by
  have isName := (mutableLocators_dest (delete dest)).symm
  rw [revisionWrites, locatorWrites_delete] at performs
  cases isLocator : (delete dest).mutableLocators.2 with
  | none =>
      rw [isLocator] at performs isName
      simp only [Option.toList_none, List.map_nil, List.nil_append, metafileWrites, srcMetafile,
        destMetafile, type, List.map_cons, performs_metafileWrite, performs_nil, if_true,
        reduceCtorEq, if_false] at performs
      rcases performs with ⟨_, rfl⟩
      constructor
      case former => exact Or.inl describes
      all_goals simp_all [destMetafile]
  | some locator =>
      rw [isLocator] at performs isName
      simp only [Option.toList_some, List.map_nil, List.cons_append, List.nil_append,
        metafileWrites, srcMetafile, destMetafile, type, List.map_cons, performs_locatorWrite,
        performs_metafileWrite, performs_nil, if_true, reduceCtorEq, if_false] at performs
      rcases performs with ⟨_, _, rfl⟩
      constructor
      case former => exact Or.inl describes
      case otherMappings =>
        intro parents name notFormer _
        have untouched : ¬(parents = parentIds ∧ name = locator.name) := by
          rintro ⟨isParent, rfl⟩
          exact notFormer ⟨isParent, isName⟩
        simp [untouched]
      all_goals simp_all [destMetafile]

/-- What the mapping writes of an update do: the former name is freed and the new one taken. -/
structure MappingChange (store final : LiveStore) (parentIds : List String)
    (formerName newName : Option LocatorName) (newId : String) : Prop where
  objects : ∀ parents id, final ⟨parents, .metafile id⟩ = store ⟨parents, .metafile id⟩
  nameFree : ∀ name, newName = some name → formerName ≠ some name →
    store ⟨parentIds, .mapping name⟩ = none
  newMapping : ∀ name, newName = some name →
    final ⟨parentIds, .mapping name⟩ = some (.mapping newId)
  formerMapping : ∀ name, formerName = some name → newName ≠ some name →
    final ⟨parentIds, .mapping name⟩ = none
  otherMappings : ∀ parents name, ¬(parents = parentIds ∧ formerName = some name) →
    ¬(parents = parentIds ∧ newName = some name) →
      final ⟨parents, .mapping name⟩ = store ⟨parents, .mapping name⟩

/-- Nothing is written if the name is kept, which then leads to the object already. -/
theorem MappingChange.refl {name : Option LocatorName} {id : String}
    (isMapped : ∀ value, name = some value → store ⟨parentIds, .mapping value⟩ =
      some (.mapping id)) : MappingChange store store parentIds name name id where
  objects := fun _ _ => rfl
  nameFree := fun _ isName notName => absurd isName notName
  newMapping := isMapped
  formerMapping := fun _ isName notName => absurd isName notName
  otherMappings := fun _ _ _ _ => rfl

theorem MappingChange.take {name : LocatorName} {id : String}
    (nameFree : store ⟨parentIds, .mapping name⟩ = none) :
    MappingChange store (Function.update store ⟨parentIds, .mapping name⟩ (some (.mapping id)))
      parentIds none (some name) id where
  objects := by simp
  nameFree := by
    rintro _ ⟨⟩ _
    exact nameFree
  newMapping := by
    rintro _ ⟨⟩
    simp
  formerMapping := by simp
  otherMappings := by
    intro parents other _ notNew
    have untouched : ¬(parents = parentIds ∧ other = name) := by
      rintro ⟨isParent, rfl⟩
      exact notNew ⟨isParent, rfl⟩
    simp [untouched]

theorem MappingChange.rename {former name : LocatorName} {id : String}
    (nameFree : Function.update store ⟨parentIds, .mapping former⟩ none
      ⟨parentIds, .mapping name⟩ = none) :
    MappingChange store
      (Function.update (Function.update store ⟨parentIds, .mapping former⟩ none)
        ⟨parentIds, .mapping name⟩ (some (.mapping id)))
      parentIds (some former) (some name) id where
  objects := by simp
  nameFree := by
    rintro _ ⟨⟩ notFormer
    have different : name ≠ former := fun same => notFormer (by rw [same])
    simpa [different] using nameFree
  newMapping := by
    rintro _ ⟨⟩
    simp
  formerMapping := by
    rintro _ ⟨⟩ notNew
    have different : former ≠ name := fun same => notNew (by rw [same])
    simp [different]
  otherMappings := by
    intro parents other notFormer notNew
    have notName : ¬(parents = parentIds ∧ other = name) := by
      rintro ⟨isParent, rfl⟩
      exact notNew ⟨isParent, rfl⟩
    have notSource : ¬(parents = parentIds ∧ other = former) := by
      rintro ⟨isParent, rfl⟩
      exact notFormer ⟨isParent, rfl⟩
    simp [notName, notSource]

theorem update_mapping {src dest : Metafile}
    {sameClass : src.metafileClass = dest.metafileClass}
    {writes : List (StoreWrite RevisionDir RevisionContent)}
    (isMapped : ∀ name, src.mutableName = some name →
      store ⟨parentIds, .mapping name⟩ = some (.mapping src.id))
    (current : (update src dest sameClass).Current store parentIds)
    (performs : Performs store
      (((update src dest sameClass).locatorWrites parentIds).map RevisionWrite.toStoreWrite ++
        writes) final) :
    ∃ middle, MappingChange store middle parentIds src.mutableName dest.mutableName dest.id ∧
      Performs middle writes final := by
  rcases current with ⟨_, sameKind, keepsName, _, relocated⟩
  have destName := mutableLocators_dest (update src dest sameClass)
  have srcName : (update src dest sameClass).mutableLocators.1.map (·.name) = src.mutableName :=
    mutableLocators_src sameKind keepsName
  simp only [destMetafile] at destName
  rcases locators : (update src dest sameClass).mutableLocators with ⟨srcLocator, destLocator⟩
  unfold locatorWrites at performs
  simp only [locators] at srcName destName relocated performs
  cases destLocator with
  | none =>
      have unnamed := keepsName destName.symm
      refine ⟨store, ?_, performs⟩
      rw [unnamed, ← destName]
      exact MappingChange.refl fun _ isNone => by cases isNone
  | some locator =>
      simp only [Option.map_some] at destName
      by_cases sameLocator : srcLocator = some locator
      · -- The mapping is kept, so that it has to be the same object.
        have sameId : src.id = dest.id := by
          by_contra different
          exact relocated different (by simp [← destName]) sameLocator
        have sameName : src.mutableName = dest.mutableName := by
          rw [← srcName, sameLocator, ← destName]
          rfl
        simp only [sameLocator, if_true, List.map_nil, List.nil_append] at performs
        refine ⟨store, ?_, performs⟩
        rw [sameName]
        apply MappingChange.refl
        intro value isValue
        rw [← sameId]
        exact isMapped value (sameName.trans isValue)
      · simp only [sameLocator, if_false] at performs
        cases srcLocator with
        | none =>
            simp only [Option.map_none, Option.toList_none, List.nil_append, List.map_cons,
              List.map_nil, List.cons_append, performs_locatorWrite, if_true, reduceCtorEq,
              if_false] at performs
            rcases performs with ⟨nameFree, rest⟩
            refine ⟨_, ?_, rest⟩
            rw [← srcName, ← destName]
            exact MappingChange.take nameFree
        | some former =>
            simp only [Option.map_some, Option.toList_some, List.cons_append, List.nil_append,
              List.map_cons, List.map_nil, performs_locatorWrite, if_true, reduceCtorEq,
              if_false] at performs srcName
            rcases performs with ⟨_, nameFree, rest⟩
            refine ⟨_, ?_, rest⟩
            rw [← srcName, ← destName]
            exact MappingChange.rename nameFree

theorem update_change {src dest : Metafile}
    {sameClass : src.metafileClass = dest.metafileClass}
    (isMapped : ∀ name, src.mutableName = some name →
      store ⟨parentIds, .mapping name⟩ = some (.mapping src.id))
    (current : (update src dest sameClass).Current store parentIds)
    (performs : Performs store
      (((update src dest sameClass).revisionWrites parentIds).map RevisionWrite.toStoreWrite)
        final) :
    ObjectChange store final parentIds src.id src.mutableName dest.id
      (some (writtenMetafile parentIds dest)) := by
  rw [revisionWrites, List.map_append] at performs
  rcases update_mapping isMapped current performs with ⟨middle, mappings, rest⟩
  have isName : (some (writtenMetafile parentIds dest)).bind Metafile.mutableName =
      dest.mutableName := dest.mutableName_toSerializable parentIds
  rcases current with ⟨describes, _, _, newFree, _⟩
  simp only [metafileWrites, srcMetafile, destMetafile, type] at rest
  by_cases sameId : src.id = dest.id
  · simp only [sameId, ne_eq, not_true_eq_false, if_false, List.map_cons, List.map_nil,
      performs_metafileWrite, performs_nil, reduceCtorEq] at rest
    rcases rest with ⟨_, rfl⟩
    refine ⟨Or.inl describes, fun different => absurd sameId.symm different, ?_, by simp,
      fun different => absurd sameId.symm different, ?_, ?_, ?_, ?_⟩
    · rw [isName]
      exact mappings.nameFree
    · intro parents id _ notNew
      simp [notNew, mappings.objects]
    · rw [isName]
      simpa using mappings.newMapping
    · rw [isName]
      simpa using mappings.formerMapping
    · rw [isName]
      simpa using mappings.otherMappings
  · simp only [ne_eq, sameId, not_false_eq_true, if_true, List.map_cons, List.map_nil,
      performs_metafileWrite, performs_replacement, reduceCtorEq, if_false] at rest
    have isFree : Function.update middle ⟨parentIds, .metafile src.id⟩ none
        ⟨parentIds, .metafile dest.id⟩ = none := by
      simp [Ne.symm sameId, mappings.objects, newFree sameId]
    rcases rest with ⟨_, ⟨_, rfl⟩ | ⟨present, _⟩⟩
    · refine ⟨Or.inl describes, fun _ => newFree sameId, ?_, by simp, ?_, ?_, ?_, ?_, ?_⟩
      · rw [isName]
        exact mappings.nameFree
      · intro _
        simp [sameId]
      · intro parents id notFormer notNew
        simp [notFormer, notNew, mappings.objects]
      · rw [isName]
        simpa using mappings.newMapping
      · rw [isName]
        simpa using mappings.formerMapping
      · rw [isName]
        simpa using mappings.otherMappings
    · exact absurd isFree present

end Operations

/--
What a transaction finds when it looks names up. Every mapping that is not
deleted leads to a live object that carries its name, every live object with a
name is found under that name only, and a retired name leads to nothing.
-/
structure NamesResolve (catalog : Catalog) (retired : RetiredNames) (txnId : TransactionId) :
    Prop where
  mapped : ∀ parentIds name mapping,
    catalog.latest (Catalog.readerOf txnId) ⟨parentIds, .mapping name⟩ = .ok (some mapping) →
    mapping.info.txnOpType ≠ .delete →
      ∃ id object metafile,
        catalog.locatorToId (Catalog.readerOf txnId) parentIds name = .ok (some id) ∧
        catalog.latest (Catalog.readerOf txnId) ⟨parentIds, .metafile id⟩ = .ok (some object) ∧
        object.info.txnOpType ≠ .delete ∧ object.content = .metafile metafile ∧
        metafile.mutableName = some name
  named : ∀ parentIds id object metafile name,
    catalog.latest (Catalog.readerOf txnId) ⟨parentIds, .metafile id⟩ = .ok (some object) →
    object.info.txnOpType ≠ .delete → object.content = .metafile metafile →
    metafile.mutableName = some name →
      catalog.locatorToId (Catalog.readerOf txnId) parentIds name = .ok (some id) ∧
      ∀ other, other.immutableId = none →
        catalog.locatorToId (Catalog.readerOf txnId) parentIds other = .ok (some id) → other = name
  retired : ∀ parentIds name, (parentIds, name) ∈ retired → name.immutableId = none →
    catalog.locatorToId (Catalog.readerOf txnId) parentIds name = .ok none

namespace Catalog

variable {catalog : Catalog} {txnId : TransactionId}

theorem live_eq_some {dir : RevisionDir} {content : RevisionContent} :
    catalog.live dir = some content ↔
      ∃ file, catalog.current dir = some file ∧ file.info.txnOpType ≠ .delete ∧
        file.content = content := by
  unfold live
  cases catalog.current dir with
  | none => simp
  | some file => by_cases isDelete : file.info.txnOpType = .delete <;> simp [isDelete]

/-- A name resolves to what its live mapping holds. -/
theorem locatorToId_eq_live (numbered : catalog.Numbered) (allVisible : catalog.AllVisible txnId)
    (parentIds : List String) {name : LocatorName} (isMutable : name.immutableId = none) :
    catalog.locatorToId (readerOf txnId) parentIds name =
      .ok ((catalog.live ⟨parentIds, .mapping name⟩).bind fun content =>
        match content with
        | .mapping id => some id
        | .metafile _ => none) := by
  unfold locatorToId live
  rw [isMutable]
  simp only [latest_eq_current numbered allVisible, bind, Except.bind, pure, Except.pure]
  cases catalog.current ⟨parentIds, .mapping name⟩ with
  | none => rfl
  | some file =>
      by_cases isDelete : file.info.txnOpType = .delete
      · simp [isDelete]
      · simp only [isDelete, if_false, Option.bind_some]
        cases file.content <;> rfl

/-- Over a settled catalog, resolved names are what a transaction finds. -/
theorem namesResolve_of_resolved (numbered : catalog.Numbered)
    (allVisible : catalog.AllVisible txnId) {retired : RetiredNames}
    (resolved : Resolved Set.univ catalog.live retired) : NamesResolve catalog retired txnId where
  mapped := by
    intro parentIds name mapping isLatest notDeleted
    rw [latest_eq_current numbered allVisible, Except.ok.injEq] at isLatest
    have isLive := live_eq_some.mpr ⟨mapping, isLatest, notDeleted, rfl⟩
    rcases resolved.mapped parentIds name trivial mapping.content isLive with
      ⟨id, metafile, isMapping, isObject, isName⟩
    rcases live_eq_some.mp isObject with ⟨object, isCurrent, objectLives, isContent⟩
    refine ⟨id, object, metafile, ?_, ?_, objectLives, isContent, isName⟩
    · rw [locatorToId_eq_live numbered allVisible parentIds (immutableId_of_mutableName isName),
        isLive, isMapping]
      rfl
    · rw [latest_eq_current numbered allVisible, isCurrent]
  named := by
    intro parentIds id object metafile name isLatest notDeleted isContent isName
    rw [latest_eq_current numbered allVisible, Except.ok.injEq] at isLatest
    have isObject := live_eq_some.mpr ⟨object, isLatest, notDeleted, isContent⟩
    constructor
    · rw [locatorToId_eq_live numbered allVisible parentIds (immutableId_of_mutableName isName),
        resolved.named parentIds id metafile name trivial isObject isName]
      rfl
    · intro other isMutable isResolved
      rw [locatorToId_eq_live numbered allVisible parentIds isMutable,
        Except.ok.injEq] at isResolved
      rcases Option.bind_eq_some_iff.mp isResolved with ⟨content, isLive, isId⟩
      rcases resolved.mapped parentIds other trivial content isLive with
        ⟨mappedId, mappedMetafile, rfl, mappedObject, mappedName⟩
      cases isId
      rw [mappedObject] at isObject
      cases isObject
      exact Option.some.inj (mappedName.symm.trans isName)
  retired := by
    intro parentIds name isRetired isMutable
    rw [locatorToId_eq_live numbered allVisible parentIds isMutable,
      resolved.retired parentIds name trivial isRetired]
    rfl

end Catalog

/-- A catalog, with the names that were renamed away or deleted and not created again. -/
structure NamingState where
  catalog : Catalog
  retired : RetiredNames

/-- A write operation, the transaction it belongs to, and the success log at that time. -/
structure CommittedOperation where
  transaction : Transaction
  success : SuccessLog
  operation : TransactionOperation

namespace NamingState

def initial : NamingState where
  catalog := Catalog.empty
  retired := ∅

/-- The ancestors under which an operation writes. -/
def RootOf (state : NamingState) (event : CommittedOperation) (parentIds : List String) : Prop :=
  Catalog.ancestorIds { state.catalog with success := event.success }
    (Catalog.readerOf event.transaction.id) event.operation.destMetafile = .ok parentIds

/-- One committed operation, and what becomes of the retired names. -/
def Step (state : NamingState) (event : CommittedOperation) (next : NamingState) : Prop :=
  Catalog.Commits state.catalog event.transaction event.success event.operation next.catalog ∧
    ∃ parentIds, state.RootOf event parentIds ∧
      next.retired = ObjectChange.retiredAfter state.retired parentIds event.operation.formerName
        event.operation.newName

/-- The operation fits the objects as they are. -/
def FitsObjects (state : NamingState) (event : CommittedOperation) : Prop :=
  ∀ parentIds, state.RootOf event parentIds →
    event.operation.Current state.catalog.live parentIds

/-- Every transaction that sees the whole catalog finds the names resolved. -/
def AllNamesResolve (state : NamingState) : Prop :=
  ∀ txnId success, Catalog.AllVisible { state.catalog with success := success } txnId →
    NamesResolve { state.catalog with success := success } state.retired txnId

/-- The invariant of a run. -/
structure Invariant (state : NamingState) : Prop where
  numbered : state.catalog.Numbered
  resolved : Resolved Set.univ state.catalog.live state.retired

theorem Invariant.initial : initial.Invariant where
  numbered := ⟨Catalog.WellFormed.empty, by simp [NamingState.initial, Catalog.empty],
    by simp [NamingState.initial, Catalog.empty]⟩
  resolved := by
    have nothing : ∀ dir, Catalog.empty.live dir = none := fun _ => rfl
    constructor <;> simp [NamingState.initial, nothing]

theorem Invariant.step {state next : NamingState} (invariant : state.Invariant)
    {event : CommittedOperation} (fits : state.FitsObjects event)
    (stepped : state.Step event next) :
    next.Invariant := by
  rcases stepped with ⟨commits, parentIds, isRoot, isRetired⟩
  rcases commits.performs invariant.numbered with ⟨sameIds, sameRoot, numbered, performs⟩
  obtain rfl : sameIds = parentIds := Except.ok.inj (sameRoot.symm.trans isRoot)
  have current := fits sameIds isRoot
  refine ⟨numbered, ?_⟩
  rw [isRetired]
  cases isOperation : event.operation with
  | create dest =>
      rw [isOperation] at performs
      have change := (create_change performs).resolved invariant.resolved
      simpa [TransactionOperation.formerName, TransactionOperation.newName,
        TransactionOperation.writtenMetafile, Metafile.mutableName_toSerializable] using change
  | update src dest sameClass =>
      rw [isOperation] at performs current
      have isMapped : ∀ name, src.mutableName = some name →
          state.catalog.live ⟨sameIds, .mapping name⟩ = some (.mapping src.id) := by
        rcases current.1 with ⟨metafile, isObject, isName⟩
        intro name isSrcName
        exact invariant.resolved.named sameIds src.id metafile name trivial isObject
          (isName.trans isSrcName)
      have change := (update_change isMapped current performs).resolved invariant.resolved
      simpa [TransactionOperation.formerName, TransactionOperation.newName,
        TransactionOperation.writtenMetafile, Metafile.mutableName_toSerializable] using change
  | delete dest =>
      rw [isOperation] at performs current
      exact (delete_change current performs).resolved invariant.resolved
  | _ =>
      rw [isOperation] at current
      exact current.elim

/--
In every run of committed operations that fit the objects as they are, every
transaction that sees the whole catalog finds the names resolved.
-/
theorem allNamesResolve_run {events : List CommittedOperation} {state : NamingState}
    (run : Run (Guarded FitsObjects Step) initial events state) : state.AllNamesResolve := by
  have invariant : state.Invariant := by
    apply run.invariant Invariant.initial
    intro before event after beforeInvariant stepped
    exact beforeInvariant.step stepped.1 stepped.2
  intro txnId success allVisible
  have numbered : Catalog.Numbered { state.catalog with success := success } :=
    ⟨{ invariant.numbered.wellFormed with }, invariant.numbered.distinct,
      invariant.numbered.bounded⟩
  exact Catalog.namesResolve_of_resolved numbered allVisible invariant.resolved

/-- What a committed operation makes of a state, if its ancestors are the given ones. -/
def after (state : NamingState) (event : CommittedOperation) (parentIds : List String) :
    NamingState where
  catalog := (ActiveTransaction.step
    ⟨event.transaction, { state.catalog with success := event.success }⟩ event.operation).1.catalog
  retired := ObjectChange.retiredAfter state.retired parentIds event.operation.formerName
    event.operation.newName

theorem step_after {state : NamingState} {event : CommittedOperation} {parentIds : List String}
    (isWrite : event.operation.isWrite)
    (seesAll : Catalog.AllVisible { state.catalog with success := event.success }
      event.transaction.id)
    (succeeds : (ActiveTransaction.step
      ⟨event.transaction, { state.catalog with success := event.success }⟩
        event.operation).2.isOk)
    (bounded : ∀ file ∈ (state.after event parentIds).catalog.files,
      file.info.revision ≤ maxRevisionNumber)
    (isRoot : state.RootOf event parentIds) : state.Step event (state.after event parentIds) := by
  refine ⟨⟨isWrite, seesAll, ?_, bounded⟩, parentIds, isRoot, rfl⟩
  rcases isStep : ActiveTransaction.step
    ⟨event.transaction, { state.catalog with success := event.success }⟩ event.operation with
    ⟨active, error | result⟩
  · rw [isStep] at succeeds
    cases succeeds
  · refine ⟨active, result, rfl, ?_⟩
    unfold after
    rw [isStep]

/-- The namespaces of the examples below, by name and identifier. -/
def exampleNamespace (name uuid : String) : Metafile where
  locator := ⟨[], .namespaceName name⟩
  uuid := some uuid

/-- The transaction that creates the namespace `sales`. -/
def creates : CommittedOperation where
  transaction := Transaction.start (.numbered 10 0) false []
  success := fun _ => none
  operation := .create (exampleNamespace "sales" "n1")

/-- A later transaction changes the namespace. -/
def changesTo (dest : Metafile)
    (sameClass : (exampleNamespace "sales" "n1").metafileClass = dest.metafileClass) :
    CommittedOperation where
  transaction := Transaction.start (.numbered 20 1) false []
  success := fun txnId => if txnId.startTime = 10 then some 11 else none
  operation := .update (exampleNamespace "sales" "n1") dest sameClass

/-- A namespace is created and renamed: the new name is resolved, and the old one is retired. -/
theorem allNamesResolve_run_renamed :
    ∃ events state, Run (Guarded FitsObjects Step) initial events state ∧
      ([], .namespaceName "sales") ∈ state.retired ∧
      state.catalog.live ⟨[], .mapping (.namespaceName "orders")⟩ = some (.mapping "n1") ∧
      state.AllNamesResolve := by
  have created : Run (Guarded FitsObjects Step) initial [creates] (initial.after creates []) :=
    Run.nil.snoc ⟨fun _ _ => trivial, step_after rfl (by decide +kernel) (by decide +kernel)
      (by decide +kernel) rfl⟩
  let renames := changesTo (exampleNamespace "orders" "n1") rfl
  have renamed : Run (Guarded FitsObjects Step) initial [creates, renames]
      ((initial.after creates []).after renames []) := by
    apply created.snoc
    constructor
    · intro parentIds isRoot
      obtain rfl : [] = parentIds := Except.ok.inj isRoot
      refine ⟨⟨_, rfl, rfl⟩, by decide, by decide, ?_, ?_⟩
      · exact fun different => absurd rfl different
      · exact fun different => absurd rfl different
    · exact step_after rfl (by decide +kernel) (by decide +kernel) (by decide +kernel) rfl
  refine ⟨_, _, renamed, ?_, by decide +kernel, allNamesResolve_run renamed⟩
  exact ⟨Or.inr ⟨rfl, rfl⟩, by decide⟩

/--
A namespace is replaced by another one of the same name. Its mapping is left as
it is, so that the name leads to the namespace that was deleted.
-/
theorem not_namesResolve_run :
    ∃ events state, Run Step initial events state ∧ ¬state.AllNamesResolve := by
  have created : Run Step initial [creates] (initial.after creates []) :=
    Run.nil.snoc (step_after rfl (by decide +kernel) (by decide +kernel) (by decide +kernel) rfl)
  let replaces := changesTo (exampleNamespace "sales" "n2") rfl
  have replaced : Run Step initial [creates, replaces]
      ((initial.after creates []).after replaces []) :=
    created.snoc
      (step_after rfl (by decide +kernel) (by decide +kernel) (by decide +kernel) rfl)
  refine ⟨_, _, replaced, ?_⟩
  intro namesResolve
  let reader : TransactionId := ⟨30, "c", by decide⟩
  let success : SuccessLog := fun txnId => some (txnId.startTime + 1)
  let catalog : Catalog :=
    { ((initial.after creates []).after replaces []).catalog with success := success }
  have isMapped : catalog.latest (Catalog.readerOf reader) ⟨[], .mapping (.namespaceName "sales")⟩ =
      .ok (some ⟨⟨[], .mapping (.namespaceName "sales")⟩, ⟨1, .create, creates.transaction.id⟩,
        .mapping "n1"⟩) := by decide +kernel
  have resolves : catalog.locatorToId (Catalog.readerOf reader) []
      (.namespaceName "sales") = .ok (some "n1") := by decide +kernel
  have isDeleted : catalog.latest (Catalog.readerOf reader) ⟨[], .metafile "n1"⟩ =
      .ok (some ⟨⟨[], .metafile "n1"⟩, ⟨2, .delete, replaces.transaction.id⟩,
        .metafile (exampleNamespace "sales" "n2")⟩) := by decide +kernel
  rcases (namesResolve reader success (by decide +kernel)).mapped [] (.namespaceName "sales") _
    isMapped (by decide) with ⟨id, object, _, isResolved, isLatest, isLive, _⟩
  obtain rfl : "n1" = id := Option.some.inj (Except.ok.inj (resolves.symm.trans isResolved))
  rw [isDeleted] at isLatest
  cases isLatest
  exact isLive rfl

end NamingState

end Deltacat.Storage
