import Deltacat.Storage.PartitionLookup

/-!
# Committed partitions

Over every sequence of `stage_partition`, `commit_partition` and
`delete_partition` calls, at most one committed partition should have given
values in a given scheme, a lookup should find exactly that one, and a commit
should replace only the partition that was there when the new one was staged.

Each of these calls changes the names of partitions as an `ObjectChange` does: a
staged partition has no name, a commit gives it the alias of its values and
scheme. A commit that replaces another partition is two such changes, one that
deletes the former partition and one that names the new one (`replace_changes`).

`commit_partition` looks for the partition to be replaced with the values, the
scheme and the previous partition of its argument, and writes the staged
partition that it read under the argument's identifier. The properties hold as
long as these agree (`DescribesStaged`).
-/

namespace Deltacat.Storage

open Deltacat.Library MetafileRevisionInfo TransactionM TransactionOperation

/-- The names that partitions are looked up by. -/
def partitionAliases : Set LocatorName :=
  { name | ∃ partitionValues partitionSchemeId,
    name = .partitionAliasName partitionValues partitionSchemeId }

/-- A partition as it is stored under its identifier. -/
structure Recorded (parentIds : List String) (id : String) (partition : Metafile) : Prop where
  isName : partition.locator.name = .partitionName partition.partitionValues (some id)
  notEmpty : id ≠ ""
  normalized : partition.partitionValues ≠ some []
  ancestors : partition.ancestorIds = parentIds
  hasParents : parentIds ≠ []
  state : partition.state = some .staged ∨ partition.state = some .committed
  unpartitioned : partition.partitionValues = none →
    partition.partitionSchemeId = some unpartitionedSchemeId
  scheme : partition.state = some .committed → nonEmpty partition.partitionSchemeId ≠ none

namespace Recorded

variable {parentIds : List String} {id : String} {partition : Metafile}

theorem id_eq (recorded : Recorded parentIds id partition) : partition.id = id := by
  simp [Metafile.id, recorded.isName, LocatorName.immutableId, nonEmpty_some recorded.notEmpty]

theorem immutableId_eq (recorded : Recorded parentIds id partition) :
    partition.locator.name.immutableId = some id := by
  simp [recorded.isName, LocatorName.immutableId, nonEmpty_some recorded.notEmpty]

/-- The alias of a partition is what a lookup by its values and scheme uses. -/
theorem alias_eq (recorded : Recorded parentIds id partition) :
    partitionAlias partition.partitionValues partition.partitionSchemeId =
      .partitionAliasName partition.partitionValues partition.partitionSchemeId := by
  unfold partitionAlias
  split
  · simp_all
  case h_2 noValues =>
    rcases isValues : partition.partitionValues with _ | _ | ⟨value, values⟩
    · rw [recorded.unpartitioned isValues]
    · exact absurd isValues recorded.normalized
    · exact absurd isValues (noValues value values)

end Recorded

/-- A partition is named by its alias unless it is staged. -/
theorem mutableName_partition {partition : Metafile} {id : String}
    {partitionValues : Option (List String)}
    (isName : partition.locator.name = .partitionName partitionValues (some id))
    (notEmpty : id ≠ "") :
    partition.mutableName = if partition.state = some .staged then none
      else some (.partitionAliasName partitionValues partition.partitionSchemeId) := by
  unfold Metafile.mutableName Metafile.locatorAlias
  rw [isName]
  simp only [LocatorName.immutableId, nonEmpty_some notEmpty, reduceCtorEq, if_false]
  split <;> rfl

theorem metafileClass_of_alias {partition : Metafile} {partitionValues : Option (List String)}
    {partitionSchemeId : Option String}
    (isName : partition.mutableName =
      some (.partitionAliasName partitionValues partitionSchemeId)) :
    partition.metafileClass = .partitionClass := by
  unfold Metafile.mutableName Metafile.locatorAlias at isName
  unfold Metafile.metafileClass
  cases locatorName : partition.locator.name <;> rw [locatorName] at isName
  all_goals
    split at isName
    · simp at isName
    · split at isName <;> simp at isName

/-- A metafile with the name, scheme and commit status of a stored partition describes it. -/
theorem Recorded.describes {store : LiveStore} {parentIds : List String} {id : String}
    {partition metafile : Metafile} (recorded : Recorded parentIds id partition)
    (isStored : store ⟨parentIds, .metafile id⟩ = some (.metafile partition))
    (sameName : metafile.locator.name = partition.locator.name)
    (sameScheme : metafile.partitionSchemeId = partition.partitionSchemeId)
    (sameStatus : metafile.state = some .staged ↔ partition.state = some .staged) :
    Describes store parentIds metafile := by
  have sameId : metafile.id = id := by
    rw [← recorded.id_eq]
    simp [Metafile.id, sameName, recorded.immutableId_eq]
  refine ⟨partition, ?_, ?_⟩
  · rw [sameId]
    exact isStored
  · rw [mutableName_partition recorded.isName recorded.notEmpty,
      mutableName_partition (sameName.trans recorded.isName) recorded.notEmpty, sameScheme]
    simp only [sameStatus]

/-- What is written differs from the metafile in its ancestors and its locator's parents only. -/
theorem writtenMetafile_eq (parentIds : List String) (metafile : Metafile) :
    ∃ parents, writtenMetafile parentIds metafile =
      { metafile with ancestorIds := parentIds }.withParents parents := by
  unfold writtenMetafile Metafile.toSerializable
  split
  · exact ⟨metafile.locator.parents, rfl⟩
  · exact ⟨_, rfl⟩
  · exact ⟨_, rfl⟩

section Store

variable {store middle final : LiveStore} {parentIds : List String}

/-- The partitions of a store are recorded under their identifiers and named by their aliases. -/
structure PartitionsNamed (store : LiveStore) : Prop where
  resolved : Resolved partitionAliases store ∅
  recorded : ∀ parentIds id partition,
    store ⟨parentIds, .metafile id⟩ = some (.metafile partition) →
      partition.metafileClass = .partitionClass → Recorded parentIds id partition

/-- The partition that an alias leads to is committed with the values and scheme of the alias. -/
theorem PartitionsNamed.committed (named : PartitionsNamed store) {id : String}
    {partition : Metafile} {partitionValues : Option (List String)}
    {partitionSchemeId : Option String}
    (isMapped : store ⟨parentIds, .mapping (partitionAlias partitionValues partitionSchemeId)⟩ =
      some (.mapping id))
    (isStored : store ⟨parentIds, .metafile id⟩ = some (.metafile partition)) :
    Recorded parentIds id partition ∧ partition.state = some .committed ∧
      partitionAlias partitionValues partitionSchemeId =
        .partitionAliasName partition.partitionValues partition.partitionSchemeId := by
  have isAlias : partitionAlias partitionValues partitionSchemeId ∈ partitionAliases := by
    unfold partitionAlias
    split <;> exact ⟨_, _, rfl⟩
  rcases named.resolved.mapped parentIds _ isAlias _ isMapped with
    ⟨_, stored, ⟨⟩, sameStored, isName⟩
  obtain rfl : partition = stored := by
    rw [isStored] at sameStored
    cases sameStored
    rfl
  rcases isAlias with ⟨values, schemeId, isValues⟩
  have recorded := named.recorded parentIds id partition isStored
    (metafileClass_of_alias (isName.trans (congrArg some isValues)))
  have sameName := (mutableName_partition recorded.isName recorded.notEmpty).symm.trans isName
  split at sameName
  · cases sameName
  case isFalse notStaged =>
    refine ⟨recorded, ?_, (Option.some.inj sameName).symm⟩
    exact recorded.state.resolve_left notStaged

theorem PartitionsNamed.change (named : PartitionsNamed store) {formerId newId : String}
    {formerName : Option LocatorName} {newMetafile : Option Metafile}
    (change : ObjectChange store final parentIds formerId formerName newId newMetafile)
    (newRecorded : ∀ partition, newMetafile = some partition →
      Recorded parentIds newId partition) : PartitionsNamed final where
  resolved :=
    ⟨(change.resolved named.resolved).mapped, (change.resolved named.resolved).named, by simp⟩
  recorded := by
    intro parents id partition isObject isPartition
    by_cases isNew : parents = parentIds ∧ id = newId
    · rcases isNew with ⟨rfl, rfl⟩
      rw [change.newObject] at isObject
      rcases Option.map_eq_some_iff.mp isObject with ⟨_, isMetafile, ⟨⟩⟩
      exact newRecorded partition isMetafile
    · by_cases isFormer : parents = parentIds ∧ id = formerId
      · rcases isFormer with ⟨rfl, rfl⟩
        rw [change.formerObject fun same => isNew ⟨rfl, same.symm⟩] at isObject
        cases isObject
      · rw [change.otherObjects parents id isFormer isNew] at isObject
        exact named.recorded parents id partition isObject isPartition

/--
The two replacements of a commit: the former partition is deleted, and the
staged one is named by the alias that they share.
-/
theorem replace_changes {staged committed former : Metafile}
    {sameClass : staged.metafileClass = committed.metafileClass}
    {formerSameClass : former.metafileClass = committed.metafileClass}
    {aliasLocator : Locator}
    (first : Performs store
      (((replace staged committed sameClass).revisionWrites parentIds).map
        RevisionWrite.toStoreWrite) middle)
    (second : Performs middle
      (((replace former committed formerSameClass).revisionWrites parentIds).map
        RevisionWrite.toStoreWrite) final)
    (sameId : staged.id = committed.id) (different : former.id ≠ committed.id)
    (isImmutable : committed.locator.name.immutableId ≠ none)
    (isAlias : committed.locatorAlias = some aliasLocator)
    (formerStored : ∃ stored, store ⟨parentIds, .metafile former.id⟩ = some (.metafile stored) ∧
      stored.mutableName = some aliasLocator.name)
    (stagedStored : ∃ stored, store ⟨parentIds, .metafile committed.id⟩ =
      some (.metafile stored) ∧ stored.mutableName = none) :
    ∃ between,
      ObjectChange store between parentIds former.id (some aliasLocator.name) former.id none ∧
      ObjectChange between final parentIds committed.id none committed.id
        (some (writtenMetafile parentIds committed)) := by
  have isName : (writtenMetafile parentIds committed).mutableName = some aliasLocator.name := by
    rw [show (writtenMetafile parentIds committed).mutableName = committed.mutableName from
      committed.mutableName_toSerializable parentIds]
    simp [Metafile.mutableName, isImmutable, isAlias]
  have firstLocators : (replace staged committed sameClass).mutableLocators.2 =
      some aliasLocator := by
    simp [mutableLocators, destMetafile, isImmutable, isAlias]
  have secondLocators : (replace former committed formerSameClass).mutableLocators.2 =
      some aliasLocator := by
    simp [mutableLocators, destMetafile, isImmutable, isAlias]
  have firstWrites : (replace staged committed sameClass).revisionWrites parentIds =
      [locatorWrite parentIds aliasLocator .replace committed.id,
        metafileWrite parentIds committed.id .replace committed false] := by
    unfold revisionWrites locatorWrites
    rcases locators : (replace staged committed sameClass).mutableLocators with ⟨_, dest⟩
    rw [locators] at firstLocators
    cases firstLocators
    simp [metafileWrites, srcMetafile, destMetafile, type, sameId]
  have secondWrites : (replace former committed formerSameClass).revisionWrites parentIds =
      [locatorWrite parentIds aliasLocator .replace committed.id,
        metafileWrite parentIds former.id .delete committed false,
        metafileWrite parentIds committed.id .create committed true] := by
    unfold revisionWrites locatorWrites
    rcases locators : (replace former committed formerSameClass).mutableLocators with ⟨_, dest⟩
    rw [locators] at secondLocators
    cases secondLocators
    simp [metafileWrites, srcMetafile, destMetafile, type, different]
  rw [firstWrites] at first
  rw [secondWrites] at second
  simp only [List.map_cons, List.map_nil, performs_locatorWrite, performs_metafileWrite,
    performs_nil, reduceCtorEq, if_false] at first
  rcases first with ⟨_, _, rfl⟩
  simp only [List.map_cons, List.map_nil, performs_locatorWrite, performs_metafileWrite,
    performs_replacement, reduceCtorEq, if_false, if_true] at second
  rcases second with ⟨_, _, ⟨absent, _⟩ | ⟨_, rfl⟩⟩
  · simp [Ne.symm different] at absent
  · refine ⟨Function.update (Function.update store ⟨parentIds, .mapping aliasLocator.name⟩ none)
      ⟨parentIds, .metafile former.id⟩ none, ?_, ?_⟩
    · constructor
      case former => exact Or.inl formerStored
      case otherMappings =>
        intro parents name notFormer _
        have untouched : ¬(parents = parentIds ∧ name = aliasLocator.name) := by
          rintro ⟨isParent, rfl⟩
          exact notFormer ⟨isParent, rfl⟩
        simp [untouched]
      all_goals simp_all
    · constructor
      case former =>
        rcases stagedStored with ⟨stored, isStored, noName⟩
        exact Or.inl ⟨stored, by simp [Ne.symm different, isStored], noName⟩
      case newFree => exact fun notSame => absurd rfl notSame
      case nameFree =>
        rintro name newName _
        obtain rfl : aliasLocator.name = name := Option.some.inj (isName.symm.trans newName)
        simp
      case newObject => simp [Ne.symm different]
      case formerObject => exact fun notSame => absurd rfl notSame
      case otherObjects =>
        intro parents id _ notNew
        by_cases isFormer : parents = parentIds ∧ id = former.id
        · simp [isFormer]
        · simp [notNew, isFormer]
      case newMapping =>
        rintro name newName
        obtain rfl : aliasLocator.name = name := Option.some.inj (isName.symm.trans newName)
        simp
      case formerMapping => simp
      case otherMappings =>
        intro parents name _ notNew
        have untouched : ¬(parents = parentIds ∧ name = aliasLocator.name) := by
          rintro ⟨isParent, rfl⟩
          exact notNew ⟨isParent, isName⟩
        simp [untouched]

/-- What a commit makes of a staged partition that it has read. -/
theorem Recorded.committedFrom {id : String} {stored : Metafile}
    (recorded : Recorded parentIds id stored) (hasScheme : nonEmpty stored.partitionSchemeId ≠ none)
    (partition : Metafile) (parents : List LocatorName) :
    (committedFrom partition (stored.withParents parents)).id = id ∧
      (committedFrom partition (stored.withParents parents)).locator.name.immutableId ≠ none ∧
      (committedFrom partition (stored.withParents parents)).locatorAlias =
        some ⟨parents, .partitionAliasName stored.partitionValues stored.partitionSchemeId⟩ ∧
      (committedFrom partition (stored.withParents parents)).mutableName =
        some (.partitionAliasName stored.partitionValues stored.partitionSchemeId) ∧
      Recorded parentIds id
        (writtenMetafile parentIds (committedFrom partition (stored.withParents parents))) := by
  have isName : (Storage.committedFrom partition (stored.withParents parents)).locator.name =
      .partitionName stored.partitionValues (some id) := recorded.isName
  have isImmutable : (Storage.committedFrom partition (stored.withParents
      parents)).locator.name.immutableId = some id := recorded.immutableId_eq
  refine ⟨?_, by simp [isImmutable], ?_, ?_, ?_⟩
  · simp [Metafile.id, isImmutable]
  · unfold Metafile.locatorAlias
    rw [isName]
    rfl
  · exact mutableName_partition isName recorded.notEmpty
  · rcases writtenMetafile_eq parentIds
      (Storage.committedFrom partition (stored.withParents parents)) with ⟨_, isWritten⟩
    rw [isWritten]
    exact ⟨recorded.isName, recorded.notEmpty, recorded.normalized, rfl, recorded.hasParents,
      Or.inr rfl, recorded.unpartitioned, fun _ => hasScheme⟩

/-- A commit that replaces nothing names the staged partition by an alias that is free. -/
theorem PartitionsNamed.update (named : PartitionsNamed store) {id : String} {stored : Metafile}
    (recorded : Recorded parentIds id stored)
    (isStored : store ⟨parentIds, .metafile id⟩ = some (.metafile stored))
    (isStaged : stored.state = some .staged)
    (hasScheme : nonEmpty stored.partitionSchemeId ≠ none) {partition : Metafile}
    {parents : List LocatorName}
    (performs : Performs store
      (((update (stored.withParents parents)
        (Storage.committedFrom partition (stored.withParents parents)) rfl).revisionWrites
          parentIds).map RevisionWrite.toStoreWrite) final) : PartitionsNamed final := by
  rcases recorded.committedFrom hasScheme partition parents with
    ⟨isId, _, _, isName, newRecorded⟩
  have noName : (stored.withParents parents).mutableName = none := by
    have sameName : (stored.withParents parents).locator.name =
        .partitionName stored.partitionValues (some id) := recorded.isName
    rw [mutableName_partition sameName recorded.notEmpty]
    exact if_pos isStaged
  have sameId : (stored.withParents parents).id =
      (Storage.committedFrom partition (stored.withParents parents)).id := rfl
  have isCurrent : (TransactionOperation.update (stored.withParents parents)
      (Storage.committedFrom partition (stored.withParents parents)) rfl).Current store
        parentIds := by
    refine ⟨recorded.describes isStored rfl rfl Iff.rfl, Iff.rfl, ?_, ?_, ?_⟩
    · rw [isName]
      exact fun isNone => absurd isNone (by simp)
    · exact fun different => absurd sameId different
    · exact fun different => absurd sameId different
  have isMapped : ∀ name, (stored.withParents parents).mutableName = some name →
      store ⟨parentIds, .mapping name⟩ = some (.mapping (stored.withParents parents).id) := by
    rw [noName]
    exact fun _ isSome => absurd isSome (by simp)
  apply named.change (update_change isMapped isCurrent performs)
  rintro _ ⟨⟩
  rw [isId]
  exact newRecorded

/-- A commit that replaces a partition gives its alias to the staged partition. -/
theorem PartitionsNamed.replace (named : PartitionsNamed store) {id formerId : String}
    {stored formerStored : Metafile} (recorded : Recorded parentIds id stored)
    (isStored : store ⟨parentIds, .metafile id⟩ = some (.metafile stored))
    (isStaged : stored.state = some .staged)
    (hasScheme : nonEmpty stored.partitionSchemeId ≠ none)
    (formerRecorded : Recorded parentIds formerId formerStored)
    (isFormer : store ⟨parentIds, .metafile formerId⟩ = some (.metafile formerStored))
    (isCommitted : formerStored.state = some .committed) (different : formerId ≠ id)
    (sameValues : formerStored.partitionValues = stored.partitionValues)
    (sameScheme : formerStored.partitionSchemeId = stored.partitionSchemeId)
    {partition : Metafile} {parents formerParents : List LocatorName}
    {formerSameClass : (formerStored.withParents formerParents).metafileClass =
      (Storage.committedFrom partition (stored.withParents parents)).metafileClass}
    (first : Performs store
      (((TransactionOperation.replace (stored.withParents parents)
        (Storage.committedFrom partition (stored.withParents parents)) rfl).revisionWrites
          parentIds).map RevisionWrite.toStoreWrite) middle)
    (second : Performs middle
      (((TransactionOperation.replace (formerStored.withParents formerParents)
        (Storage.committedFrom partition (stored.withParents parents))
          formerSameClass).revisionWrites parentIds).map RevisionWrite.toStoreWrite) final) :
    PartitionsNamed final := by
  rcases recorded.committedFrom hasScheme partition parents with
    ⟨isId, isImmutable, isAlias, _, newRecorded⟩
  have formerIsId : (formerStored.withParents formerParents).id = formerId := formerRecorded.id_eq
  have formerName : formerStored.mutableName =
      some (.partitionAliasName stored.partitionValues stored.partitionSchemeId) := by
    rw [mutableName_partition formerRecorded.isName formerRecorded.notEmpty, sameValues,
      sameScheme]
    simp [isCommitted]
  have noName : stored.mutableName = none := by
    rw [mutableName_partition recorded.isName recorded.notEmpty]
    exact if_pos isStaged
  rcases replace_changes first second rfl (by rw [formerIsId, isId]; exact different) isImmutable
    isAlias ⟨formerStored, by rw [formerIsId]; exact isFormer, formerName⟩
    ⟨stored, by rw [isId]; exact isStored, noName⟩ with ⟨between, deletes, names⟩
  apply (named.change deletes (by rintro _ ⟨⟩)).change names
  rintro _ ⟨⟩
  rw [isId]
  exact newRecorded

end Store

theorem Catalog.ancestorIdsFrom_length {catalog : Catalog} {reader : Reader}
    {names : List LocatorName} {root parentIds : List String}
    (isRoot : catalog.ancestorIdsFrom reader names root = .ok parentIds) :
    parentIds.length = root.length + names.length := by
  induction names generalizing root with
  | nil =>
      cases isRoot
      rfl
  | cons name names ih =>
      simp only [ancestorIdsFrom, bind, Except.bind] at isRoot
      split at isRoot
      · cases isRoot
      split at isRoot
      · cases isRoot
      split at isRoot
      · rw [ih isRoot]
        simp only [List.length_append, List.length_cons, List.length_nil]
        omega
      · cases isRoot

theorem newPartition_id {streamLocator : Locator} {partitionValues : Option (List String)}
    {contentTypes : Option (List String)} {schemeId previousId : Option String} {id : String}
    (isDrawn : id ≠ "") :
    (newPartition streamLocator partitionValues id contentTypes schemeId previousId).id = id := by
  simp [newPartition, Metafile.id, Metafile.partitionOf, Locator.partitionLocatorOf,
    LocatorName.immutableId, nonEmpty_some isDrawn]

theorem Recorded.staged {streamLocator : Locator} {partitionValues : Option (List String)}
    {contentTypes : Option (List String)} {schemeId previousId : Option String} {id : String}
    (isDrawn : id ≠ "") {parentIds : List String} (hasParents : parentIds ≠ []) :
    Recorded parentIds id (writtenMetafile parentIds
      (newPartition streamLocator partitionValues id contentTypes schemeId previousId)) := by
  rcases writtenMetafile_eq parentIds
    (newPartition streamLocator partitionValues id contentTypes schemeId previousId) with
    ⟨parents, isWritten⟩
  rw [isWritten]
  rcases partitionValues with _ | _ | ⟨value, values⟩
  all_goals
    refine ⟨rfl, isDrawn, ?_, rfl, hasParents, Or.inl rfl, ?_, ?_⟩
    all_goals simp [newPartition, Metafile.partitionOf, Locator.partitionLocatorOf,
      Metafile.partitionValues, Metafile.withParents]

section Calls

variable {active next : ActiveTransaction}

/-- Staging a partition records it without a name. -/
theorem stagePartition_spec {converts : String → String → Bool} (settled : active.Settled)
    (named : PartitionsNamed active.catalog.live) {stream partition : Metafile}
    {partitionValues : Option (List String)} {partitionSchemeId : Option String}
    {partitionId : String} (isDrawn : partitionId ≠ "")
    (returns : stagePartition converts stream partitionValues partitionSchemeId partitionId active =
      .ok partition next)
    (bounded : ∀ file ∈ next.catalog.files, file.info.revision ≤ maxRevisionNumber) :
    next.Settled ∧ PartitionsNamed next.catalog.live := by
  unfold stagePartition at returns
  rcases Procedure.bind_eq_ok.mp returns with ⟨found, first, isFound, returns⟩
  have firstWritten := (preserves_latest _).of_ok isFound
  cases found with
  | none => exact (Procedure.throw_ne_ok.mp returns).elim
  | some tableVersion =>
      rcases Procedure.bind_eq_ok.mp returns with ⟨schemeId, second, isValid, returns⟩
      have secondWritten := (preserves_validateStagedPartition _ _ _ _ _).of_ok isValid
      rcases Procedure.bind_eq_ok.mp returns with ⟨former, third, isFormer, returns⟩
      have thirdWritten := (preserves_getPartition _ _ _).of_ok isFormer
      split at returns
      · exact (Procedure.throw_ne_ok.mp returns).elim
      rcases Procedure.bind_eq_ok.mp returns with ⟨_, fourth, isCreated, returns⟩
      rcases Procedure.pure_eq_ok.mp returns with ⟨_, rfl⟩
      rcases stepOr_eq_ok isCreated with ⟨result, steps⟩
      have sameWritten := thirdWritten.trans (secondWritten.trans firstWritten)
      rcases (settled.of_written sameWritten).step rfl steps bounded with
        ⟨parentIds, isRoot, nextSettled, _, performs⟩
      rw [ActiveTransaction.catalog_of_written sameWritten] at performs
      refine ⟨nextSettled, named.change (create_change performs) ?_⟩
      rintro _ ⟨⟩
      rw [newPartition_id isDrawn]
      apply Recorded.staged isDrawn
      rintro rfl
      have isLength := Catalog.ancestorIdsFrom_length isRoot
      simp [destMetafile, newPartition, Metafile.partitionOf, Locator.partitionLocatorOf,
        Locator.names] at isLength

theorem ancestorIds_of_recorded {catalog : Catalog} {reader : Reader} {partition : Metafile}
    {parentIds : List String} (isAncestors : partition.ancestorIds = parentIds)
    (hasParents : parentIds ≠ []) : catalog.ancestorIds reader partition = .ok parentIds := by
  unfold Catalog.ancestorIds
  rw [isAncestors, if_neg hasParents]

/-- Deleting a partition deletes it together with its alias. -/
theorem deletePartition_spec (settled : active.Settled)
    (named : PartitionsNamed active.catalog.live) {streamLocator : Locator}
    {partitionValues : Option (List String)} {partitionSchemeId : Option String}
    (returns : deletePartition streamLocator partitionValues partitionSchemeId active =
      .ok () next)
    (bounded : ∀ file ∈ next.catalog.files, file.info.revision ≤ maxRevisionNumber) :
    next.Settled ∧ PartitionsNamed next.catalog.live := by
  unfold deletePartition at returns
  rcases Procedure.bind_eq_ok.mp returns with ⟨found, first, isFound, returns⟩
  rcases getPartition_eq_ok isFound with ⟨usedLocator, usedSchemeId, _, isLookup, sameWritten⟩
  cases found with
  | none => exact (Procedure.throw_ne_ok.mp returns).elim
  | some item =>
      rcases Procedure.bind_eq_ok.mp returns with ⟨result, second, isStep, returns⟩
      rcases Procedure.pure_eq_ok.mp returns with ⟨_, rfl⟩
      rcases found_partitionWithValues settled isLookup with
        ⟨parentIds, id, stored, parents, _, isMapped, isStored, isItem⟩
      rcases named.committed isMapped isStored with ⟨recorded, isCommitted, _⟩
      have isAncestors : (deprecated item).ancestorIds = parentIds := by
        rw [isItem]
        exact recorded.ancestors
      have describes : Describes active.catalog.live parentIds (deprecated item) := by
        apply recorded.describes isStored
        · rw [isItem]
          rfl
        · rw [isItem]
          rfl
        · simp [deprecated, isCommitted]
      rcases (settled.of_written sameWritten).step rfl (step_eq_ok.mp isStep) bounded with
        ⟨sameIds, isRoot, nextSettled, _, performs⟩
      obtain rfl : parentIds = sameIds := Except.ok.inj
        ((ancestorIds_of_recorded isAncestors recorded.hasParents).symm.trans isRoot)
      rw [ActiveTransaction.catalog_of_written sameWritten] at performs
      refine ⟨nextSettled, named.change (delete_change describes performs) ?_⟩
      rintro _ ⟨⟩

/-- The parts of a `commit_partition` that runs, up to its end or to an exception. -/
theorem commitPartition_eq {partition : Metafile} {previousPartition : Option Metafile} :
    (∃ error, commitPartition partition previousPartition active = .error error active) ∨
      ∃ partitionId streamLocator, partition.partitionId = some partitionId ∧ partitionId ≠ "" ∧
        partition.streamLocator = some streamLocator ∧
        commitPartition partition previousPartition active = (do
          let staged ← getStagedPartition streamLocator partitionId
          let former ← getPreviousPartition partition streamLocator
          writeCommittedPartition staged (committedFrom partition staged) rfl former
          return committedFrom partition staged) active := by
  unfold commitPartition
  split
  · exact Or.inl ⟨_, rfl⟩
  · cases isId : nonEmpty partition.partitionId with
    | none => exact Or.inl ⟨.valueError, rfl⟩
    | some partitionId =>
        cases isLocator : partition.streamLocator with
        | none => exact Or.inl ⟨.valueError, rfl⟩
        | some streamLocator =>
            rcases nonEmpty_eq_some.mp isId with ⟨isSome, notEmpty⟩
            exact Or.inr ⟨partitionId, streamLocator, isSome, notEmpty, rfl, rfl⟩

theorem preserves_getStagedPartition (streamLocator : Locator) (partitionId : String) :
    Procedure.Preserves ActiveTransaction.written
      (getStagedPartition streamLocator partitionId) := by
  apply (preserves_latest _).bind
  rintro (_ | staged)
  · apply Procedure.preserves_throw
  · simp only
    split
    · apply Procedure.preserves_throw
    · apply Procedure.preserves_pure

theorem preserves_getPreviousPartition (partition : Metafile) (streamLocator : Locator) :
    Procedure.Preserves ActiveTransaction.written
      (getPreviousPartition partition streamLocator) := by
  unfold getPreviousPartition
  split
  · apply Procedure.preserves_pure
  · apply (preserves_getPartition _ _ _).bind
    rintro (_ | former)
    · apply Procedure.preserves_pure
    · simp only
      split
      · apply Procedure.preserves_throw
      · split
        · apply Procedure.preserves_throw
        · apply Procedure.preserves_pure

/-- The staged partition that is to be committed is a live object. -/
theorem getStagedPartition_eq_ok (settled : active.Settled) {streamLocator : Locator}
    {partitionId : String} (notEmpty : partitionId ≠ "") {item : Metafile}
    (returns : getStagedPartition streamLocator partitionId active = .ok item next) :
    ∃ parentIds stored parents,
      active.catalog.ancestorIdsFrom (Catalog.readerOf active.transaction.id)
        streamLocator.names [] = .ok parentIds ∧
      active.catalog.live ⟨parentIds, .metafile partitionId⟩ = some (.metafile stored) ∧
      item = stored.withParents parents ∧ stored.state = some .staged := by
  rcases Procedure.bind_eq_ok.mp returns with ⟨found, first, isFound, returns⟩
  cases found with
  | none => exact (Procedure.throw_ne_ok.mp returns).elim
  | some staged =>
      simp only at returns
      split at returns
      · exact (Procedure.throw_ne_ok.mp returns).elim
      case isFalse isStaged =>
        rcases Procedure.pure_eq_ok.mp returns with ⟨rfl, _⟩
        rcases getPartitionById_eq_some settled notEmpty isFound with
          ⟨parentIds, stored, parents, isRoot, isLive, rfl⟩
        exact ⟨parentIds, stored, parents, isRoot, isLive, rfl, not_not.mp isStaged⟩

/-- The partition that is to be replaced is the one the argument says, and another one. -/
theorem getPreviousPartition_eq_some {partition item : Metafile} {streamLocator : Locator}
    (returns : getPreviousPartition partition streamLocator active = .ok (some item) next) :
    partition.previousPartitionId = item.partitionId ∧ item.partitionId ≠ partition.partitionId ∧
      partition.previousPartitionId ≠ none ∧
      ∃ first, getPartition streamLocator partition.partitionValues partition.partitionSchemeId
        active = .ok (some item) first := by
  unfold getPreviousPartition at returns
  cases isPrevious : partition.previousPartitionId with
  | none =>
      rw [isPrevious] at returns
      cases (Procedure.pure_eq_ok.mp returns).1
  | some previousId =>
      rw [isPrevious] at returns
      rcases Procedure.bind_eq_ok.mp returns with ⟨found, first, isFound, returns⟩
      cases found with
      | none => cases (Procedure.pure_eq_ok.mp returns).1
      | some former =>
          simp only at returns
          split at returns
          · exact (Procedure.throw_ne_ok.mp returns).elim
          case isFalse samePrevious =>
            split at returns
            · exact (Procedure.throw_ne_ok.mp returns).elim
            case isFalse different =>
              rcases Procedure.pure_eq_ok.mp returns with ⟨isItem, _⟩
              cases isItem
              exact ⟨(not_not.mp samePrevious).symm, different, by simp, first, isFound⟩

/-- A live partition is committed with the given values and scheme. -/
def CommittedAs (store : LiveStore) (parentIds : List String)
    (partitionValues : Option (List String)) (partitionSchemeId : Option String) (id : String) :
    Prop :=
  ∃ partition, store ⟨parentIds, .metafile id⟩ = some (.metafile partition) ∧
    partition.metafileClass = .partitionClass ∧ partition.state = some .committed ∧
    partition.partitionValues = partitionValues ∧
    partition.partitionSchemeId = partitionSchemeId

/--
The argument of a commit describes the staged partition with its identifier, whose
scheme has an identifier: the partition to be replaced is unset or that of the
staged partition, which then is looked up with the values and scheme of the
staged partition.
-/
def DescribesStaged (catalog : Catalog) (reader : Reader) (partition : Metafile) : Prop :=
  ∀ streamLocator parentIds partitionId staged,
    partition.streamLocator = some streamLocator →
    catalog.ancestorIdsFrom reader streamLocator.names [] = .ok parentIds →
    partition.partitionId = some partitionId →
    catalog.live ⟨parentIds, .metafile partitionId⟩ = some (.metafile staged) →
      staged.metafileClass = .partitionClass ∧ nonEmpty staged.partitionSchemeId ≠ none ∧
      (partition.previousPartitionId = none ∨
        (partition.previousPartitionId = staged.previousPartitionId ∧
          partition.partitionValues = staged.partitionValues ∧
          partition.partitionSchemeId = staged.partitionSchemeId ∧
          nonEmpty streamLocator.streamId ≠ none))

/-- The alias of a committed partition leads to it. -/
theorem PartitionsNamed.isMapped {store : LiveStore} (named : PartitionsNamed store)
    {parentIds : List String} {partitionValues : Option (List String)}
    {partitionSchemeId : Option String} {id : String}
    (isCommitted : CommittedAs store parentIds partitionValues partitionSchemeId id) :
    store ⟨parentIds, .mapping (.partitionAliasName partitionValues partitionSchemeId)⟩ =
      some (.mapping id) := by
  rcases isCommitted with ⟨partition, isStored, isPartition, isCommitted, rfl, rfl⟩
  have recorded := named.recorded parentIds id partition isStored isPartition
  apply named.resolved.named parentIds id partition _ ⟨_, _, rfl⟩ isStored
  rw [mutableName_partition recorded.isName recorded.notEmpty]
  simp [isCommitted]

/-- A first commit that succeeds finds the alias of the staged partition free. -/
theorem update_aliasFree (settled : active.Settled) {parentIds : List String} {id : String}
    {stored : Metafile} (recorded : Recorded parentIds id stored)
    (isStaged : stored.state = some .staged)
    (hasScheme : nonEmpty stored.partitionSchemeId ≠ none) {partition : Metafile}
    {parents : List LocatorName} {result : ActiveTransaction.StepResult}
    (steps : active.step (.update (stored.withParents parents)
      (committedFrom partition (stored.withParents parents)) rfl) = (next, .ok result)) :
    active.catalog.live ⟨parentIds,
      .mapping (.partitionAliasName stored.partitionValues stored.partitionSchemeId)⟩ = none := by
  rcases recorded.committedFrom hasScheme partition parents with ⟨_, isImmutable, isAlias, _⟩
  have noAlias : (stored.withParents parents).locatorAlias = none := if_pos isStaged
  have isRoot : active.catalog.ancestorIds (Catalog.readerOf active.transaction.id)
      (committedFrom partition (stored.withParents parents)) = .ok parentIds :=
    ancestorIds_of_recorded recorded.ancestors recorded.hasParents
  have isFirst : (update (stored.withParents parents)
      (committedFrom partition (stored.withParents parents)) rfl).revisionWrites parentIds =
        locatorWrite parentIds ⟨parents,
          .partitionAliasName stored.partitionValues stored.partitionSchemeId⟩ .create
            (committedFrom partition (stored.withParents parents)).id ::
          (update (stored.withParents parents)
            (committedFrom partition (stored.withParents parents)) rfl).metafileWrites
              parentIds := by
    simp [revisionWrites, locatorWrites, mutableLocators, destMetafile, srcMetafile, isImmutable,
      isAlias, noAlias]
  have permitted := settled.step_first rfl steps isRoot isFirst rfl
  rw [RevisionWrite.toStoreWrite_permitted] at permitted
  simpa [locatorWrite] using permitted

/-- The staged partition that a commit is about, and what its argument says about it. -/
structure Commits (catalog : Catalog) (reader : Reader) (partition : Metafile)
    (streamLocator : Locator) (parentIds : List String) (id : String) (staged : Metafile) :
    Prop where
  isLocator : partition.streamLocator = some streamLocator
  isRoot : catalog.ancestorIdsFrom reader streamLocator.names [] = .ok parentIds
  isId : partition.partitionId = some id
  isStored : catalog.live ⟨parentIds, .metafile id⟩ = some (.metafile staged)
  isStaged : staged.state = some .staged
  recorded : Recorded parentIds id staged
  hasScheme : nonEmpty staged.partitionSchemeId ≠ none
  agrees : partition.previousPartitionId = none ∨
    (partition.previousPartitionId = staged.previousPartitionId ∧
      partition.partitionValues = staged.partitionValues ∧
      partition.partitionSchemeId = staged.partitionSchemeId ∧
      nonEmpty streamLocator.streamId ≠ none)

/-- A partition that is replaced is the one recorded by the staged partition. -/
theorem Commits.former (settled : active.Settled) (named : PartitionsNamed active.catalog.live)
    {partition staged item : Metafile} {streamLocator : Locator} {parentIds : List String}
    {id : String}
    (commits : Commits active.catalog (Catalog.readerOf active.transaction.id) partition
      streamLocator parentIds id staged)
    (returns : getPreviousPartition partition streamLocator active = .ok (some item) next) :
    ∃ formerId former parents, Recorded parentIds formerId former ∧
      active.catalog.live ⟨parentIds, .metafile formerId⟩ = some (.metafile former) ∧
      item = former.withParents parents ∧ former.state = some .committed ∧ formerId ≠ id ∧
      former.partitionValues = staged.partitionValues ∧
      former.partitionSchemeId = staged.partitionSchemeId ∧
      staged.previousPartitionId = some formerId ∧
      active.catalog.live ⟨parentIds,
        .mapping (.partitionAliasName staged.partitionValues staged.partitionSchemeId)⟩ =
          some (.mapping formerId) := by
  rcases getPreviousPartition_eq_some returns with ⟨isPrevious, different, hasPrevious, _, isFound⟩
  rcases commits.agrees with noPrevious | ⟨samePrevious, sameValues, sameScheme, hasStream⟩
  · exact absurd noPrevious hasPrevious
  rcases getPartition_eq_ok isFound with ⟨usedLocator, usedSchemeId, isUsed, isLookup, _⟩
  have hasScheme : nonEmpty partition.partitionSchemeId ≠ none := by
    rw [sameScheme]
    exact commits.hasScheme
  rcases isUsed hasScheme hasStream with ⟨rfl, rfl⟩
  rcases found_partitionWithValues settled isLookup with
    ⟨sameIds, formerId, former, parents, sameRoot, isMapped, isStored, isItem⟩
  obtain rfl : parentIds = sameIds := Except.ok.inj (commits.isRoot.symm.trans sameRoot)
  rcases named.committed isMapped isStored with ⟨recorded, isCommitted, isAlias⟩
  rw [sameValues, sameScheme, commits.recorded.alias_eq] at isMapped isAlias
  have isFormerId : item.partitionId = some formerId := by
    rw [isItem]
    simp [Metafile.partitionId, Metafile.withParents, recorded.isName]
  refine ⟨formerId, former, parents, recorded, isStored, isItem, isCommitted, ?_, ?_, ?_, ?_,
    isMapped⟩
  · rintro rfl
    exact different (isFormerId.trans commits.isId.symm)
  · exact (LocatorName.partitionAliasName.inj isAlias).1.symm
  · exact (LocatorName.partitionAliasName.inj isAlias).2.symm
  · rw [← samePrevious, isPrevious, isFormerId]

theorem commits_of_describes (settled : active.Settled)
    (named : PartitionsNamed active.catalog.live) {partition item : Metafile}
    {streamLocator : Locator} {id : String}
    (describes : DescribesStaged active.catalog (Catalog.readerOf active.transaction.id) partition)
    (isLocator : partition.streamLocator = some streamLocator)
    (isId : partition.partitionId = some id) (notEmpty : id ≠ "")
    (returns : getStagedPartition streamLocator id active = .ok item next) :
    ∃ parentIds staged parents, item = staged.withParents parents ∧
      Commits active.catalog (Catalog.readerOf active.transaction.id) partition streamLocator
        parentIds id staged := by
  rcases getStagedPartition_eq_ok settled notEmpty returns with
    ⟨parentIds, staged, parents, isRoot, isStored, isItem, isStaged⟩
  rcases describes streamLocator parentIds id staged isLocator isRoot isId isStored with
    ⟨isPartition, hasScheme, agrees⟩
  exact ⟨parentIds, staged, parents, isItem, isLocator, isRoot, isId, isStored, isStaged,
    named.recorded parentIds id staged isStored isPartition, hasScheme, agrees⟩

theorem Commits.of_written {partition staged : Metafile} {streamLocator : Locator}
    {parentIds : List String} {id : String}
    (commits : Commits active.catalog (Catalog.readerOf active.transaction.id) partition
      streamLocator parentIds id staged) (same : next.written = active.written) :
    Commits next.catalog (Catalog.readerOf next.transaction.id) partition streamLocator
      parentIds id staged := by
  rw [ActiveTransaction.catalog_of_written same, ActiveTransaction.id_of_written same]
  exact commits

/-- A commit keeps the partitions named. -/
theorem commitPartition_spec (settled : active.Settled)
    (named : PartitionsNamed active.catalog.live) {partition committed : Metafile}
    {previousPartition : Option Metafile}
    (describes : DescribesStaged active.catalog (Catalog.readerOf active.transaction.id) partition)
    (returns : commitPartition partition previousPartition active = .ok committed next)
    (bounded : ∀ file ∈ next.catalog.files, file.info.revision ≤ maxRevisionNumber) :
    next.Settled ∧ PartitionsNamed next.catalog.live := by
  rcases commitPartition_eq with
    ⟨error, isError⟩ | ⟨id, streamLocator, isId, notEmpty, isLocator, isCommit⟩
  · rw [isError] at returns
    cases returns
  rw [isCommit] at returns
  rcases Procedure.bind_eq_ok.mp returns with ⟨item, first, isItem, returns⟩
  rcases Procedure.bind_eq_ok.mp returns with ⟨former, second, isFormer, returns⟩
  rcases Procedure.bind_eq_ok.mp returns with ⟨_, third, isWritten, returns⟩
  rcases Procedure.pure_eq_ok.mp returns with ⟨_, rfl⟩
  have firstWritten := (preserves_getStagedPartition _ _).of_ok isItem
  have sameWritten := ((preserves_getPreviousPartition _ _).of_ok isFormer).trans firstWritten
  rcases commits_of_describes settled named describes isLocator isId notEmpty isItem with
    ⟨parentIds, staged, parents, rfl, commits⟩
  have sameCatalog := ActiveTransaction.catalog_of_written sameWritten
  have isAncestors : ∀ catalog reader, Catalog.ancestorIds catalog reader
      (committedFrom partition (staged.withParents parents)) = .ok parentIds := fun _ _ =>
    ancestorIds_of_recorded commits.recorded.ancestors commits.recorded.hasParents
  cases former with
  | none =>
      rcases Procedure.bind_eq_ok.mp isWritten with ⟨result, last, isStep, isPure⟩
      rcases Procedure.pure_eq_ok.mp isPure with ⟨_, rfl⟩
      rcases (settled.of_written sameWritten).step rfl (step_eq_ok.mp isStep) bounded with
        ⟨sameIds, isRoot, nextSettled, _, performs⟩
      obtain rfl : parentIds = sameIds := Except.ok.inj ((isAncestors _ _).symm.trans isRoot)
      rw [sameCatalog] at performs
      exact ⟨nextSettled, named.update commits.recorded commits.isStored commits.isStaged
        commits.hasScheme performs⟩
  | some formerItem =>
      have firstCatalog := ActiveTransaction.catalog_of_written firstWritten
      rcases (commits.of_written firstWritten).former (settled.of_written firstWritten)
        (by rw [firstCatalog]; exact named) isFormer with
        ⟨formerId, formerStored, formerParents, formerRecorded, formerLive, rfl, isCommitted,
          different, sameValues, sameScheme, _⟩
      rw [firstCatalog] at formerLive
      rcases Procedure.bind_eq_ok.mp isWritten with ⟨result, middle, isFirst, rest⟩
      split at rest
      case isFalse => exact (Procedure.throw_ne_ok.mp rest).elim
      case isTrue formerSameClass =>
        rcases Procedure.bind_eq_ok.mp rest with ⟨_, last, isSecond, isPure⟩
        rcases Procedure.pure_eq_ok.mp isPure with ⟨_, rfl⟩
        have middleBounded := ActiveTransaction.bounded_of_step rfl (step_eq_ok.mp isSecond) bounded
        rcases (settled.of_written sameWritten).step rfl (step_eq_ok.mp isFirst) middleBounded with
          ⟨firstIds, firstRoot, middleSettled, _, firstPerforms⟩
        rcases middleSettled.step rfl (step_eq_ok.mp isSecond) bounded with
          ⟨secondIds, secondRoot, nextSettled, _, secondPerforms⟩
        obtain rfl : parentIds = firstIds :=
          Except.ok.inj ((isAncestors _ _).symm.trans firstRoot)
        obtain rfl : parentIds = secondIds :=
          Except.ok.inj ((isAncestors _ _).symm.trans secondRoot)
        rw [sameCatalog] at firstPerforms
        exact ⟨nextSettled, named.replace commits.recorded commits.isStored commits.isStaged
          commits.hasScheme formerRecorded formerLive isCommitted different sameValues sameScheme
          firstPerforms secondPerforms⟩

/--
A commit fails if another partition is committed than the one that the staged
partition records, and leaves the live objects as they are.
-/
theorem commitPartition_rejects (settled : active.Settled) (unwritten : active.Unwritten)
    (named : PartitionsNamed active.catalog.live) {partition staged : Metafile}
    {previousPartition : Option Metafile} {streamLocator : Locator} {parentIds : List String}
    {id otherId : String}
    (commits : Commits active.catalog (Catalog.readerOf active.transaction.id) partition
      streamLocator parentIds id staged)
    (isCommitted : CommittedAs active.catalog.live parentIds staged.partitionValues
      staged.partitionSchemeId otherId)
    (notRecorded : staged.previousPartitionId ≠ some otherId) :
    ∃ error final, commitPartition partition previousPartition active = .error error final ∧
      final.catalog.live = active.catalog.live := by
  have isMapped := named.isMapped isCommitted
  rcases commitPartition_eq with
    ⟨error, isError⟩ | ⟨sameId, sameLocator, isId, _, isLocator, isCommit⟩
  · exact ⟨error, active, isError, rfl⟩
  obtain rfl : id = sameId := Option.some.inj (commits.isId.symm.trans isId)
  obtain rfl : streamLocator = sameLocator :=
    Option.some.inj (commits.isLocator.symm.trans isLocator)
  rw [isCommit]
  have sameLive : ∀ {other : ActiveTransaction}, other.written = active.written →
      other.catalog.live = active.catalog.live := fun same => by
    rw [ActiveTransaction.catalog_of_written same]
  cases isItem : getStagedPartition streamLocator id active with
  | error error first =>
      exact ⟨error, first, Procedure.bind_eq_error.mpr (Or.inl isItem),
        sameLive ((preserves_getStagedPartition _ _).of_error isItem)⟩
  | ok item first =>
      have firstWritten := (preserves_getStagedPartition _ _).of_ok isItem
      rcases getStagedPartition_eq_ok settled commits.recorded.notEmpty isItem with
        ⟨sameIds, stored, parents, sameRoot, isStored, rfl, _⟩
      obtain rfl : parentIds = sameIds := Except.ok.inj (commits.isRoot.symm.trans sameRoot)
      obtain rfl : staged = stored := by
        have same := commits.isStored.symm.trans isStored
        cases same
        rfl
      cases isFormer : getPreviousPartition partition streamLocator first with
      | error error second =>
          have secondWritten := (preserves_getPreviousPartition _ _).of_error isFormer
          exact ⟨error, second, Procedure.bind_eq_error.mpr (Or.inr ⟨_, first, isItem,
            Procedure.bind_eq_error.mpr (Or.inl isFormer)⟩),
            sameLive (secondWritten.trans firstWritten)⟩
      | ok former second =>
          have sameWritten :=
            ((preserves_getPreviousPartition _ _).of_ok isFormer).trans firstWritten
          cases former with
          | some formerItem =>
              have firstCatalog := ActiveTransaction.catalog_of_written firstWritten
              rcases (commits.of_written firstWritten).former (settled.of_written firstWritten)
                (by rw [firstCatalog]; exact named) isFormer with
                ⟨formerId, _, _, _, _, _, _, _, _, _, isPrevious, formerMapped⟩
              rw [firstCatalog, isMapped] at formerMapped
              cases formerMapped
              exact absurd isPrevious notRecorded
          | none =>
              -- The alias is taken, so that the first write of the update fails.
              rcases isStep : second.step (.update (staged.withParents parents)
                (committedFrom partition (staged.withParents parents)) rfl) with
                ⟨third, error | result⟩
              · refine ⟨error, third, ?_, ?_⟩
                · exact Procedure.bind_eq_error.mpr (Or.inr ⟨_, first, isItem,
                    Procedure.bind_eq_error.mpr (Or.inr ⟨_, second, isFormer,
                      Procedure.bind_eq_error.mpr (Or.inl
                        (Procedure.bind_eq_error.mpr (Or.inl (step_eq_error.mpr isStep))))⟩)⟩)
                · have leavesNothing := (unwritten.of_written sameWritten).progress.step_error rfl
                    (congrArg Prod.snd isStep)
                  rw [isStep] at leavesNothing
                  rw [Catalog.live_congr leavesNothing.files]
                  exact sameLive sameWritten
              · have aliasFree := update_aliasFree (settled.of_written sameWritten)
                  commits.recorded commits.isStaged commits.hasScheme isStep
                rw [sameLive sameWritten, isMapped] at aliasFree
                cases aliasFree

end Calls

/-- A call of the storage interface that changes partitions. -/
inductive PartitionCall
  | stage (stream : Metafile) (partitionValues : Option (List String))
      (partitionSchemeId : Option String) (partitionId : String) (isDrawn : partitionId ≠ "")
  | commit (partition : Metafile) (previousPartition : Option Metafile)
  | delete (streamLocator : Locator) (partitionValues : Option (List String))
      (partitionSchemeId : Option String)

/-- A call, the transaction in which it is made, and the time when that is sealed. -/
structure PartitionEvent where
  txnId : TransactionId
  now : Option ℕ
  call : PartitionCall

section Run

variable (converts : String → String → Bool)

def PartitionCall.perform : PartitionCall → TransactionM Unit
  | stage stream partitionValues partitionSchemeId partitionId _ => do
      let _ ← stagePartition converts stream partitionValues partitionSchemeId partitionId
  | commit partition previousPartition => do
      let _ ← commitPartition partition previousPartition
  | delete streamLocator partitionValues partitionSchemeId =>
      deletePartition streamLocator partitionValues partitionSchemeId

namespace Catalog

/-- A successful call in a transaction of its own. -/
def PartitionStep (catalog : Catalog) (event : PartitionEvent) (next : Catalog) : Prop :=
  catalog.Completes event.txnId event.now (event.call.perform converts) () next

/-- A commit describes the staged partition. -/
def CommitsDescribe (catalog : Catalog) (event : PartitionEvent) : Prop :=
  match event.call with
  | .commit partition _ => DescribesStaged catalog (readerOf event.txnId) partition
  | _ => True

/-- A catalog in which there is no partition. -/
structure WithoutPartitions (catalog : Catalog) : Prop where
  numbered : catalog.Numbered
  noAlias : ∀ parentIds, ∀ name ∈ partitionAliases, catalog.live ⟨parentIds, .mapping name⟩ = none
  noPartition : ∀ parentIds id partition,
    catalog.live ⟨parentIds, .metafile id⟩ = some (.metafile partition) →
      partition.metafileClass ≠ .partitionClass

/-- The properties of committed partitions. -/
structure PartitionsCommitted (catalog : Catalog) : Prop where
  /-- At most one partition is committed with given values and scheme. -/
  unique : ∀ parentIds partitionValues partitionSchemeId id otherId,
    CommittedAs catalog.live parentIds partitionValues partitionSchemeId id →
    CommittedAs catalog.live parentIds partitionValues partitionSchemeId otherId → id = otherId
  /-- A lookup by values and scheme reads the current revision of the committed partition. -/
  lookup : ∀ txnId, catalog.AllVisible txnId →
    ∀ streamLocator parentIds partitionValues partitionSchemeId id,
    nonEmpty streamLocator.streamId ≠ none →
    catalog.ancestorIdsFrom (readerOf txnId) streamLocator.names [] = .ok parentIds →
    CommittedAs catalog.live parentIds partitionValues partitionSchemeId id →
      ∃ file final, catalog.current ⟨parentIds, .metafile id⟩ = some file ∧
        getPartition streamLocator partitionValues partitionSchemeId
          ⟨Transaction.start txnId false [], catalog⟩ =
            match catalog.readFile file with
            | .ok partition => .ok (some partition) final
            | .error error => .error error final
  /-- A commit that succeeds has replaced nothing but what the staged partition records. -/
  succeeds : ∀ txnId, catalog.AllVisible txnId →
    (∀ file ∈ catalog.files, file.info.txnId ≠ txnId) → txnId ∉ catalog.running →
    ∀ partition previousPartition committed final,
    DescribesStaged catalog (readerOf txnId) partition →
    commitPartition partition previousPartition ⟨Transaction.start txnId false [], catalog⟩ =
      .ok committed final →
      ∃ streamLocator parentIds id staged,
        partition.streamLocator = some streamLocator ∧
        catalog.ancestorIdsFrom (readerOf txnId) streamLocator.names [] = .ok parentIds ∧
        partition.partitionId = some id ∧
        catalog.live ⟨parentIds, .metafile id⟩ = some (.metafile staged) ∧
        staged.state = some .staged ∧
        ∀ otherId, CommittedAs catalog.live parentIds staged.partitionValues
          staged.partitionSchemeId otherId → staged.previousPartitionId = some otherId
  /-- A commit fails if there is another committed partition, which is left as it is. -/
  fails : ∀ txnId, catalog.AllVisible txnId →
    (∀ file ∈ catalog.files, file.info.txnId ≠ txnId) → txnId ∉ catalog.running →
    ∀ partition previousPartition streamLocator parentIds id staged otherId,
    DescribesStaged catalog (readerOf txnId) partition →
    partition.streamLocator = some streamLocator →
    catalog.ancestorIdsFrom (readerOf txnId) streamLocator.names [] = .ok parentIds →
    partition.partitionId = some id →
    catalog.live ⟨parentIds, .metafile id⟩ = some (.metafile staged) →
    staged.state = some .staged →
    CommittedAs catalog.live parentIds staged.partitionValues staged.partitionSchemeId otherId →
    staged.previousPartitionId ≠ some otherId →
      ∃ error final, commitPartition partition previousPartition
          ⟨Transaction.start txnId false [], catalog⟩ = .error error final ∧
        final.catalog.live = catalog.live

/-- The invariant of a run. -/
structure PartitionInvariant (catalog : Catalog) : Prop where
  numbered : catalog.Numbered
  named : PartitionsNamed catalog.live

variable {catalog next : Catalog}

theorem PartitionInvariant.start (without : catalog.WithoutPartitions) :
    catalog.PartitionInvariant where
  numbered := without.numbered
  named := by
    refine ⟨⟨?_, ?_, by simp⟩, ?_⟩
    · intro parentIds name isAlias content isMapped
      rw [without.noAlias parentIds name isAlias] at isMapped
      cases isMapped
    · rintro parentIds id metafile _ ⟨values, schemeId, rfl⟩ isStored isName
      exact absurd (metafileClass_of_alias isName)
        (without.noPartition parentIds id metafile isStored)
    · intro parentIds id partition isStored isPartition
      exact absurd isPartition (without.noPartition parentIds id partition isStored)

variable {converts}

theorem PartitionInvariant.step (invariant : catalog.PartitionInvariant) {event : PartitionEvent}
    (describes : catalog.CommitsDescribe event)
    (stepped : catalog.PartitionStep converts event next) : next.PartitionInvariant := by
  rcases Completes.spec stepped invariant.numbered with
    ⟨active, returns, settled, bounded, nextNumbered, sameLive⟩
  have kept : active.Settled ∧ PartitionsNamed active.catalog.live := by
    unfold CommitsDescribe at describes
    cases isCall : event.call with
    | stage stream partitionValues partitionSchemeId partitionId isDrawn =>
        rw [isCall] at returns
        rcases Procedure.bind_eq_ok.mp returns with ⟨_, middle, isStaged, isPure⟩
        rcases Procedure.pure_eq_ok.mp isPure with ⟨_, rfl⟩
        exact stagePartition_spec settled invariant.named isDrawn isStaged bounded
    | commit partition previousPartition =>
        rw [isCall] at returns describes
        rcases Procedure.bind_eq_ok.mp returns with ⟨_, middle, isCommitted, isPure⟩
        rcases Procedure.pure_eq_ok.mp isPure with ⟨_, rfl⟩
        exact commitPartition_spec settled invariant.named describes isCommitted bounded
    | delete streamLocator partitionValues partitionSchemeId =>
        rw [isCall] at returns
        exact deletePartition_spec settled invariant.named returns bounded
  refine ⟨nextNumbered kept.1, ?_⟩
  rw [sameLive]
  exact kept.2

theorem PartitionInvariant.lookup (invariant : catalog.PartitionInvariant) {txnId : TransactionId}
    (allVisible : catalog.AllVisible txnId) {streamLocator : Locator} {parentIds : List String}
    {partitionValues : Option (List String)} {partitionSchemeId : Option String} {id : String}
    (hasStream : nonEmpty streamLocator.streamId ≠ none)
    (isRoot : catalog.ancestorIdsFrom (readerOf txnId) streamLocator.names [] = .ok parentIds)
    (isCommitted : CommittedAs catalog.live parentIds partitionValues partitionSchemeId id) :
    ∃ file final, catalog.current ⟨parentIds, .metafile id⟩ = some file ∧
      getPartition streamLocator partitionValues partitionSchemeId
        ⟨Transaction.start txnId false [], catalog⟩ =
          match catalog.readFile file with
          | .ok partition => .ok (some partition) final
          | .error error => .error error final := by
  have isMapped := invariant.named.isMapped isCommitted
  rcases isCommitted with ⟨partition, isStored, isPartition, isCommitted, rfl, rfl⟩
  have recorded := invariant.named.recorded parentIds id partition isStored isPartition
  have hasScheme := recorded.scheme isCommitted
  rcases live_eq_some.mp isStored with ⟨file, isCurrent, isLive, _⟩
  have isDefined : (partitionAlias partition.partitionValues
      partition.partitionSchemeId).isDefined := by
    rw [recorded.alias_eq]
    simpa [LocatorName.isDefined, LocatorName.immutableId, Option.isSome_iff_ne_none] using
      hasScheme
  rw [← recorded.alias_eq] at isMapped
  have isResolved := resolve_of_mapped invariant.numbered allVisible isDefined isRoot
    recorded.notEmpty isMapped
  rcases latest_cases (partitionWithValues streamLocator partition.partitionValues
    partition.partitionSchemeId) ⟨Transaction.start txnId false [], catalog⟩ with
    ⟨final, _, isLatest⟩
  refine ⟨file, final, isCurrent, ?_⟩
  rw [getPartition_eq hasScheme hasStream, isLatest]
  have isFound := found_eq invariant.numbered allVisible
    (partitionWithValues streamLocator partition.partitionValues partition.partitionSchemeId)
  simp only [isResolved, bind, Except.bind, isCurrent, isLive, if_false, pure, Except.pure]
    at isFound
  simp only [Transaction.start, isFound]
  cases catalog.readFile file <;> rfl

theorem PartitionInvariant.committed (invariant : catalog.PartitionInvariant) :
    catalog.PartitionsCommitted where
  unique := by
    intro parentIds partitionValues partitionSchemeId id otherId isCommitted otherCommitted
    have isMapped := invariant.named.isMapped isCommitted
    rw [invariant.named.isMapped otherCommitted] at isMapped
    cases isMapped
    rfl
  lookup := by
    intro txnId allVisible streamLocator parentIds partitionValues partitionSchemeId id hasStream
      isRoot isCommitted
    exact invariant.lookup allVisible hasStream isRoot isCommitted
  succeeds := by
    intro txnId allVisible fresh notRunning partition previousPartition committed final describes
      returns
    have settled : ActiveTransaction.Settled ⟨Transaction.start txnId false [], catalog⟩ :=
      ⟨invariant.numbered, allVisible⟩
    rcases commitPartition_eq with
      ⟨error, isError⟩ | ⟨id, streamLocator, isId, notEmpty, isLocator, isCommit⟩
    · rw [isError] at returns
      cases returns
    have parts := returns
    rw [isCommit] at parts
    rcases Procedure.bind_eq_ok.mp parts with ⟨item, first, isItem, _⟩
    rcases commits_of_describes settled invariant.named describes isLocator isId notEmpty isItem
      with ⟨parentIds, staged, _, _, commits⟩
    refine ⟨streamLocator, parentIds, id, staged, isLocator, commits.isRoot, isId,
      commits.isStored, commits.isStaged, ?_⟩
    intro otherId isCommitted
    by_contra notRecorded
    rcases commitPartition_rejects settled (ActiveTransaction.Unwritten.start fresh notRunning)
      invariant.named commits isCommitted notRecorded with ⟨error, last, rejects, _⟩
    rw [rejects] at returns
    cases returns
  fails := by
    intro txnId allVisible fresh notRunning partition previousPartition streamLocator parentIds id
      staged otherId describes isLocator isRoot isId isStored isStaged isCommitted notRecorded
    rcases describes streamLocator parentIds id staged isLocator isRoot isId isStored with
      ⟨isPartition, hasScheme, agrees⟩
    exact commitPartition_rejects ⟨invariant.numbered, allVisible⟩
      (ActiveTransaction.Unwritten.start fresh notRunning) invariant.named
      ⟨isLocator, isRoot, isId, isStored, isStaged,
        invariant.named.recorded parentIds id staged isStored isPartition, hasScheme, agrees⟩
      isCommitted notRecorded

/--
In every run of calls whose commits describe the staged partitions, at most one
partition is committed with given values and scheme, lookups find it, and commits
are compare-and-swap.
-/
theorem partitionsCommitted_run {start : Catalog} (without : start.WithoutPartitions)
    {events : List PartitionEvent}
    (run : Run (Guarded CommitsDescribe (PartitionStep converts)) start events catalog) :
    catalog.PartitionsCommitted := by
  have invariant : catalog.PartitionInvariant := by
    apply run.invariant (PartitionInvariant.start without)
    intro before event after beforeInvariant stepped
    exact beforeInvariant.step stepped.1 stepped.2
  exact invariant.committed

end Catalog

end Run

section Examples

/-- The transaction that created the stream below. -/
def streamFounder : TransactionId := .numbered 5 0

def streamScheme : PartitionScheme String where
  id := some "s"
  keys := some [{ key := ["region"], transform := some (.of .identity) }]

def streamNamespace : Metafile where
  locator := ⟨[], .namespaceName "sales"⟩
  uuid := some "n1"

def streamTable : Metafile where
  locator := ⟨[.namespaceName "sales"], .tableName "orders"⟩
  uuid := some "t1"
  latestActiveTableVersion := some "1"

def streamTableVersion : Metafile where
  locator := ⟨[.namespaceName "sales", .tableName "orders"], .tableVersionName "1"⟩
  schema := some [("region", "string")]
  partitionSchemes := [streamScheme]

def regionStream : Metafile where
  locator := ⟨[.namespaceName "sales", .tableName "orders", .tableVersionName "1"],
    .streamName (some "st") (some "deltacat")⟩
  state := some .committed
  partitionScheme := some streamScheme

/-- A catalog with one stream that is partitioned by region, committed at time 6. -/
def streamCatalog : Catalog :=
  { ([streamNamespace, streamTable, streamTableVersion, regionStream].foldl
      (fun catalog metafile => (catalog.writeTxn streamFounder (.create metafile)).1)
      Catalog.empty) with
    success := fun txnId => if txnId = streamFounder then some 6 else none }

theorem streamCatalog_numbered : streamCatalog.Numbered := by
  have wellFormed : streamCatalog.WellFormed := by
    have created := (((Catalog.WellFormed.empty.writeTxn streamFounder
      (show (create streamNamespace).isWrite from rfl)).writeTxn streamFounder
      (show (create streamTable).isWrite from rfl)).writeTxn streamFounder
      (show (create streamTableVersion).isWrite from rfl)).writeTxn streamFounder
      (show (create regionStream).isWrite from rfl)
    exact { created with }
  exact ⟨wellFormed, by decide +kernel, by decide +kernel⟩

/-- Whether a file belongs to a partition or to a partition's alias. -/
def isPartitionFile (file : RevisionFile) : Bool :=
  match file.dir.entry, file.content with
  | .mapping (.partitionAliasName _ _), _ => true
  | _, .metafile metafile => metafile.metafileClass = .partitionClass
  | _, _ => false

theorem Catalog.withoutPartitions_of_files {catalog : Catalog} (numbered : catalog.Numbered)
    (noFile : ∀ file ∈ catalog.files, isPartitionFile file = false) :
    catalog.WithoutPartitions where
  numbered := numbered
  noAlias := by
    rintro parentIds _ ⟨partitionValues, partitionSchemeId, rfl⟩
    by_contra isMapped
    rcases Option.ne_none_iff_exists'.mp isMapped with ⟨content, isLive⟩
    rcases live_eq_some.mp isLive with ⟨file, isCurrent, _⟩
    rcases current_eq_some isCurrent with ⟨fileMem, isDir, _⟩
    have noAlias := noFile file fileMem
    unfold isPartitionFile at noAlias
    rw [isDir] at noAlias
    cases noAlias
  noPartition := by
    intro parentIds id partition isLive
    rcases live_eq_some.mp isLive with ⟨file, isCurrent, _, isContent⟩
    rcases current_eq_some isCurrent with ⟨fileMem, isDir, _⟩
    have noPartition := noFile file fileMem
    unfold isPartitionFile at noPartition
    rw [isDir, isContent] at noPartition
    simpa using noPartition

theorem streamCatalog_withoutPartitions : streamCatalog.WithoutPartitions :=
  Catalog.withoutPartitions_of_files streamCatalog_numbered (by decide +kernel)

/-- Staging a partition of the stream, at a given time. -/
def stages (time : ℕ) (region partitionId : String) (isDrawn : partitionId ≠ "") :
    PartitionEvent where
  txnId := .numbered time 1
  now := some (time + 1)
  call := .stage regionStream (some [region]) (some "s") partitionId isDrawn

/-- Committing a partition of the stream, at a given time. -/
def commitsAt (time : ℕ) (region partitionId : String) (previousId : Option String) :
    PartitionEvent where
  txnId := .numbered time 1
  now := some (time + 1)
  call := .commit (newPartition regionStream.locator (some [region]) partitionId none (some "s")
    previousId) none

namespace Catalog

/-- The catalog after a call. -/
def afterCall (catalog : Catalog) (event : PartitionEvent) : Catalog :=
  catalog.completed event.txnId event.now (event.call.perform fun _ _ => true)

theorem partitionStep_afterCall {catalog : Catalog} {event : PartitionEvent}
    (seesAll : catalog.AllVisible event.txnId)
    (isCompleted : catalog.isCompleted event.txnId event.now (event.call.perform fun _ _ => true))
    (bounded : ∀ file ∈ (catalog.afterCall event).files,
      file.info.revision ≤ maxRevisionNumber) :
    catalog.PartitionStep (fun _ _ => true) event (catalog.afterCall event) := by
  rcases completes_of_isCompleted seesAll isCompleted bounded with ⟨_, completes⟩
  exact completes

/-- The catalog after a call that succeeds and sees everything. -/
def afterCall? (catalog : Catalog) (event : PartitionEvent) : Option Catalog :=
  if catalog.AllVisible event.txnId ∧
      catalog.isCompleted event.txnId event.now (event.call.perform fun _ _ => true) ∧
      ∀ file ∈ (catalog.afterCall event).files, file.info.revision ≤ maxRevisionNumber then
    some (catalog.afterCall event)
  else none

theorem partitionStep_afterCall? {catalog next : Catalog} {event : PartitionEvent}
    (isNext : catalog.afterCall? event = some next) :
    catalog.PartitionStep (fun _ _ => true) event next := by
  unfold afterCall? at isNext
  split at isNext
  case isTrue succeeds =>
    cases isNext
    exact partitionStep_afterCall succeeds.1 succeeds.2.1 succeeds.2.2
  case isFalse => cases isNext

/-- A partition is staged, committed, and found under its values. -/
theorem partitionsCommitted_run_committed :
    ∃ events catalog,
      Run (Guarded CommitsDescribe (PartitionStep fun _ _ => true)) streamCatalog events catalog ∧
      CommittedAs catalog.live ["n1", "t1", "1", "st"] (some ["eu"]) (some "s") "p1" ∧
      catalog.PartitionsCommitted := by
  let stage := stages 10 "eu" "p1" (by decide)
  let commit := commitsAt 20 "eu" "p1" none
  have staged : Run (Guarded CommitsDescribe (PartitionStep fun _ _ => true)) streamCatalog
      [stage] (streamCatalog.afterCall stage) :=
    Run.nil.snoc ⟨trivial, partitionStep_afterCall (by decide +kernel) (by decide +kernel)
      (by decide +kernel)⟩
  have committed : Run (Guarded CommitsDescribe (PartitionStep fun _ _ => true)) streamCatalog
      [stage, commit] ((streamCatalog.afterCall stage).afterCall commit) := by
    apply staged.snoc
    constructor
    · intro streamLocator parentIds partitionId partition isLocator isRoot isId isStored
      obtain rfl : regionStream.locator = streamLocator := Option.some.inj isLocator
      obtain rfl : "p1" = partitionId := Option.some.inj isId
      have isStream : (streamCatalog.afterCall stage).ancestorIdsFrom (readerOf commit.txnId)
          regionStream.locator.names [] = .ok ["n1", "t1", "1", "st"] := by decide +kernel
      obtain rfl : ["n1", "t1", "1", "st"] = parentIds := Except.ok.inj (isStream.symm.trans isRoot)
      have isPartition : (streamCatalog.afterCall stage).live
          ⟨["n1", "t1", "1", "st"], .metafile "p1"⟩ =
            some (.metafile (writtenMetafile ["n1", "t1", "1", "st"]
              (newPartition regionStream.locator (some ["eu"]) "p1" none (some "s") none))) := by
        decide +kernel
      rw [isPartition] at isStored
      cases isStored
      exact ⟨rfl, by decide, Or.inl rfl⟩
    · exact partitionStep_afterCall (by decide +kernel) (by decide +kernel) (by decide +kernel)
  have isCommitted : ((streamCatalog.afterCall stage).afterCall commit).live
      ⟨["n1", "t1", "1", "st"], .metafile "p1"⟩ =
        some (.metafile (writtenMetafile ["n1", "t1", "1", "st"]
          { newPartition regionStream.locator (some ["eu"]) "p1" none (some "s") none with
            state := some .committed })) := by
    decide +kernel
  refine ⟨_, _, committed, ⟨_, isCommitted, rfl, rfl, rfl, rfl⟩,
    partitionsCommitted_run streamCatalog_withoutPartitions committed⟩

/--
Partitions of two regions are committed. Then the partition `p3` of the first
region is staged, and committed with an argument that describes the partition of
the second region.
-/
def crossedCalls : List PartitionEvent :=
  [stages 10 "eu" "p1" (by decide), commitsAt 20 "eu" "p1" none, stages 30 "us" "p2" (by decide),
    commitsAt 40 "us" "p2" none, stages 50 "eu" "p3" (by decide),
    commitsAt 60 "us" "p3" (some "p2")]

private theorem crossedCalls_performed :
    (crossedCalls.foldlM afterCall? streamCatalog).isSome := by
  decide +kernel

/-- The crossed commit leaves two committed partitions of the first region. -/
theorem not_partitionsCommitted_run :
    ∃ catalog, Run (PartitionStep fun _ _ => true) streamCatalog crossedCalls catalog ∧
      ¬catalog.PartitionsCommitted := by
  have run := (Run.of_foldlM crossedCalls crossedCalls_performed).mono
    fun _ _ _ => partitionStep_afterCall?
  refine ⟨_, run, ?_⟩
  intro committed
  have first : CommittedAs ((crossedCalls.foldlM afterCall? streamCatalog).get
      crossedCalls_performed).live ["n1", "t1", "1", "st"] (some ["eu"]) (some "s") "p1" :=
    ⟨writtenMetafile ["n1", "t1", "1", "st"]
      { newPartition regionStream.locator (some ["eu"]) "p1" none (some "s") none with
        state := some .committed }, by decide +kernel, rfl, rfl, rfl, rfl⟩
  have second : CommittedAs ((crossedCalls.foldlM afterCall? streamCatalog).get
      crossedCalls_performed).live ["n1", "t1", "1", "st"] (some ["eu"]) (some "s") "p3" :=
    ⟨writtenMetafile ["n1", "t1", "1", "st"]
      { newPartition regionStream.locator (some ["eu"]) "p3" none (some "s") (some "p1") with
        state := some .committed }, by decide +kernel, rfl, rfl, rfl, rfl⟩
  exact absurd (committed.unique _ _ _ _ _ first second) (by decide)

end Catalog

end Examples

end Deltacat.Storage
