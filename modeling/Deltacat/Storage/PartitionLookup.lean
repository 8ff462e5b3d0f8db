import Deltacat.Storage.ProcedureSpec

/-!
# Looking partitions up

What `get_partition_by_id` and `get_partition` find in a settled catalog. By its
identifier a partition is found whatever its state is; by its values and its
partition scheme it is found through the mapping of its alias.
-/

namespace Deltacat.Storage

open Deltacat.Library MetafileRevisionInfo TransactionM

/-- The alias under which a partition with the given values and scheme is looked up. -/
def partitionAlias (partitionValues : Option (List String)) (partitionSchemeId : Option String) :
    LocatorName :=
  match partitionValues with
  | some (value :: values) => .partitionAliasName (some (value :: values)) partitionSchemeId
  | _ => .partitionAliasName none (some unpartitionedSchemeId)

/-- What `get_partition_by_id` looks up. -/
def partitionWithId (streamLocator : Locator) (partitionId : String) : Metafile :=
  .partitionOf (.partitionLocatorOf streamLocator none (some partitionId)) none none none

/-- What `get_partition` looks up. -/
def partitionWithValues (streamLocator : Locator) (partitionValues : Option (List String))
    (partitionSchemeId : Option String) : Metafile :=
  .partitionOf (.partitionLocatorOf streamLocator partitionValues none) none (some .committed)
    partitionSchemeId

theorem nonEmpty_eq_some {text : Option String} {value : String} :
    nonEmpty text = some value ↔ text = some value ∧ value ≠ "" := by
  simp [nonEmpty, Option.filter_eq_some_iff]

theorem nonEmpty_some {value : String} (notEmpty : value ≠ "") :
    nonEmpty (some value) = some value :=
  nonEmpty_eq_some.mpr ⟨rfl, notEmpty⟩

theorem partitionWithValues_alias (streamLocator : Locator)
    (partitionValues : Option (List String)) (partitionSchemeId : Option String) :
    (partitionWithValues streamLocator partitionValues partitionSchemeId).locatorAlias =
      some ⟨streamLocator.names, partitionAlias partitionValues partitionSchemeId⟩ := by
  rcases partitionValues with _ | _ | ⟨value, values⟩
  · rfl
  · rfl
  · rfl

namespace Catalog

variable {catalog : Catalog} {txnId : TransactionId} {streamLocator : Locator}

/-- A partition is looked up by its identifier under the identifiers of its stream. -/
theorem resolve_partitionWithId {reader : Reader} {partitionId : String}
    (notEmpty : partitionId ≠ "") {dir : RevisionDir}
    (isResolved : catalog.resolve reader (partitionWithId streamLocator partitionId) =
      .ok (some dir)) :
    ∃ parentIds, catalog.ancestorIdsFrom reader streamLocator.names [] = .ok parentIds ∧
      dir = ⟨parentIds, .metafile partitionId⟩ := by
  have isName : lookupName (partitionWithId streamLocator partitionId) =
      some (.partitionName none (some partitionId)) := by
    simp [lookupName, partitionWithId, Metafile.partitionOf, Locator.partitionLocatorOf,
      LocatorName.isDefined, LocatorName.immutableId, nonEmpty_some notEmpty]
  have isAncestors : catalog.ancestorIds reader (partitionWithId streamLocator partitionId) =
      catalog.ancestorIdsFrom reader streamLocator.names [] := rfl
  have noUuid : nonEmpty (partitionWithId streamLocator partitionId).uuid = none := rfl
  unfold resolve at isResolved
  rw [isAncestors, isName] at isResolved
  cases isRoot : catalog.ancestorIdsFrom reader streamLocator.names [] with
  | error error =>
      rw [isRoot] at isResolved
      cases error <;> cases isResolved
  | ok parentIds =>
      rw [isRoot] at isResolved
      refine ⟨parentIds, rfl, ?_⟩
      simp only [noUuid, locatorToId, LocatorName.immutableId, nonEmpty_some notEmpty, bind,
        Except.bind, pure, Except.pure, Option.map_some, Except.ok.injEq,
        Option.some.injEq] at isResolved
      exact isResolved.symm

theorem ancestorIds_of_resolve {reader : Reader} {metafile : Metafile} {dir : RevisionDir}
    (isResolved : catalog.resolve reader metafile = .ok (some dir)) :
    ∃ parentIds, catalog.ancestorIds reader metafile = .ok parentIds := by
  unfold resolve at isResolved
  cases isRoot : catalog.ancestorIds reader metafile with
  | error error =>
      rw [isRoot] at isResolved
      cases error <;> cases isResolved
  | ok parentIds => exact ⟨parentIds, rfl⟩

/-- A lookup by values takes the identifier from the mapping of the alias. -/
theorem resolve_partitionWithValues (numbered : catalog.Numbered)
    (allVisible : catalog.AllVisible txnId) {partitionValues : Option (List String)}
    {partitionSchemeId : Option String} {parentIds : List String}
    (isRoot : catalog.ancestorIdsFrom (readerOf txnId) streamLocator.names [] = .ok parentIds) :
    catalog.resolve (readerOf txnId)
        (partitionWithValues streamLocator partitionValues partitionSchemeId) =
      .ok (if (partitionAlias partitionValues partitionSchemeId).isDefined then
        (nonEmpty ((catalog.live ⟨parentIds,
          .mapping (partitionAlias partitionValues partitionSchemeId)⟩).bind fun content =>
            match content with
            | .mapping id => some id
            | .metafile _ => none)).map fun id => ⟨parentIds, .metafile id⟩
      else none) := by
  have noName : (partitionWithValues streamLocator partitionValues
      partitionSchemeId).locator.name.isDefined = false := rfl
  have isAncestors : catalog.ancestorIds (readerOf txnId)
      (partitionWithValues streamLocator partitionValues partitionSchemeId) =
      .ok parentIds := isRoot
  have noUuid : nonEmpty (partitionWithValues streamLocator partitionValues
      partitionSchemeId).uuid = none := rfl
  have isMutable : (partitionAlias partitionValues partitionSchemeId).immutableId = none := by
    unfold partitionAlias
    split <;> rfl
  unfold resolve
  simp only [isAncestors, lookupName, noName, Bool.false_eq_true, if_false,
    partitionWithValues_alias, Option.map_some, noUuid]
  by_cases isDefined : (partitionAlias partitionValues partitionSchemeId).isDefined
  · simp only [isDefined, Option.filter_some, if_true]
    rw [locatorToId_eq_live numbered allVisible parentIds isMutable]
    rfl
  · simp only [isDefined, Option.filter_some, Bool.false_eq_true, if_false]

end Catalog

section Reads

open Procedure ActiveTransaction

theorem preserves_getStream (namespaceName tableName tableVersion : Option String) :
    Preserves written (getStream namespaceName tableName tableVersion) := by
  have resolves :
      Preserves written (resolveLatestActiveTableVersionId namespaceName tableName) := by
    apply Preserves.bind (preserves_latest _)
    rintro (_ | table)
    · apply preserves_throw
    · apply preserves_pure
  unfold getStream
  simp only
  split
  · apply Preserves.bind (preserves_pure _)
    intro tableVersion
    apply preserves_latest
  · apply Preserves.bind resolves
    intro tableVersion
    apply preserves_latest

theorem preserves_partitionSchemeIdOf (stream : Metafile) :
    Preserves written (partitionSchemeIdOf stream) := by
  unfold partitionSchemeIdOf
  split
  · apply preserves_throw
  · apply preserves_pure

theorem preserves_resolveStream (streamLocator : Locator) (partitionSchemeId : Option String) :
    Preserves written (resolveStream streamLocator partitionSchemeId) := by
  unfold resolveStream
  split
  · apply Preserves.bind (preserves_getStream _ _ _)
    rintro (_ | stream)
    · apply preserves_throw
    · apply Preserves.bind (preserves_partitionSchemeIdOf stream)
      intro schemeId
      apply preserves_pure
  · apply preserves_pure

theorem preserves_getPartition (streamLocator : Locator)
    (partitionValues : Option (List String)) (partitionSchemeId : Option String) :
    Preserves written (getPartition streamLocator partitionValues partitionSchemeId) := by
  unfold getPartition
  apply Preserves.bind (preserves_resolveStream _ _)
  intro resolved
  apply preserves_latest

theorem preserves_validatePartitionValuesFrom (converts : String → String → Bool)
    (schema : List (String × String)) (keyValues : List (PartitionKey String × String)) :
    Preserves written (validatePartitionValuesFrom converts schema keyValues) := by
  induction keyValues with
  | nil => apply preserves_pure
  | cons keyValue rest ih =>
      unfold validatePartitionValuesFrom
      apply Preserves.bind
      · unfold partitionValueType
        split
        · apply preserves_throw
        · split
          · apply preserves_pure
          · apply preserves_throw
          · split
            · apply preserves_throw
            · apply preserves_pure
      · intro fieldType
        split
        · exact ih
        · apply preserves_throw

theorem preserves_validatePartitionValuesAgainstScheme (converts : String → String → Bool)
    (partitionValues : List String) (partitionScheme : PartitionScheme String)
    (schema : Option (List (String × String))) :
    Preserves written
      (validatePartitionValuesAgainstScheme converts partitionValues partitionScheme schema) := by
  unfold validatePartitionValuesAgainstScheme
  split
  · apply preserves_throw
  · apply preserves_throw
  · apply preserves_throw
  · apply Preserves.ite (preserves_throw _)
    apply preserves_validatePartitionValuesFrom

theorem preserves_validateStagedPartition (converts : String → String → Bool)
    (stream tableVersion : Metafile) (partitionValues : List String)
    (partitionSchemeId : Option String) :
    Preserves written
      (validateStagedPartition converts stream tableVersion partitionValues partitionSchemeId) := by
  unfold validateStagedPartition
  simp only
  split
  case' h_1 => apply (preserves_pure _).bind
  case' h_2 => apply (preserves_partitionSchemeIdOf stream).bind
  case' h_3 => apply (preserves_pure _).bind
  -- What is left are the checks of the scheme, whichever way its identifier was found.
  all_goals
    intro schemeId
    split
    · apply preserves_throw
    · apply Preserves.bind (preserves_partitionSchemeIdOf stream)
      intro streamSchemeId
      apply Preserves.ite (preserves_throw _)
      apply Preserves.ite
      · apply Preserves.ite (preserves_throw _)
        apply Preserves.bind (preserves_validatePartitionValuesAgainstScheme converts _ _ _)
        intro _
        apply preserves_pure
      · apply preserves_pure

end Reads

variable {active next : ActiveTransaction} {streamLocator : Locator}

/-- A partition that is found by its identifier is the live object of that identifier. -/
theorem getPartitionById_eq_some (settled : active.Settled) {partitionId : String}
    (notEmpty : partitionId ≠ "") {item : Metafile}
    (returns : getPartitionById streamLocator partitionId active = .ok (some item) next) :
    ∃ parentIds stored parents,
      active.catalog.ancestorIdsFrom (Catalog.readerOf active.transaction.id)
        streamLocator.names [] = .ok parentIds ∧
      active.catalog.live ⟨parentIds, .metafile partitionId⟩ = some (.metafile stored) ∧
      item = stored.withParents parents := by
  rcases latest_eq_ok returns with ⟨isFound, _⟩
  rcases Catalog.found_eq_some settled.numbered settled.seesAll isFound with
    ⟨dir, stored, parents, isResolved, isLive, isItem⟩
  rcases Catalog.resolve_partitionWithId notEmpty isResolved with ⟨parentIds, isRoot, rfl⟩
  exact ⟨parentIds, stored, parents, isRoot, isLive, isItem⟩

/-- What `get_partition` looks up; the default stream and scheme are for incomplete arguments. -/
theorem getPartition_eq_ok {partitionValues : Option (List String)}
    {partitionSchemeId : Option String} {item : Option Metafile}
    (returns : getPartition streamLocator partitionValues partitionSchemeId active =
      .ok item next) :
    ∃ usedLocator usedSchemeId,
      (nonEmpty partitionSchemeId ≠ none → nonEmpty streamLocator.streamId ≠ none →
        usedLocator = streamLocator ∧ usedSchemeId = partitionSchemeId) ∧
      active.catalog.found (Catalog.readerOf active.transaction.id)
        (partitionWithValues usedLocator partitionValues usedSchemeId) = .ok item ∧
      next.written = active.written := by
  rcases Procedure.bind_eq_ok.mp returns with ⟨⟨usedLocator, usedSchemeId⟩, middle, resolves, rest⟩
  have sameWritten := (preserves_resolveStream streamLocator partitionSchemeId).of_ok resolves
  rcases latest_eq_ok rest with ⟨isFound, restWritten⟩
  refine ⟨usedLocator, usedSchemeId, ?_, ?_, restWritten.trans sameWritten⟩
  · intro hasScheme hasStream
    unfold resolveStream at resolves
    rw [if_neg (by simp [hasScheme, hasStream])] at resolves
    rcases Procedure.pure_eq_ok.mp resolves with ⟨isUsed, _⟩
    cases isUsed
    exact ⟨rfl, rfl⟩
  · rw [ActiveTransaction.catalog_of_written sameWritten,
      ActiveTransaction.id_of_written sameWritten] at isFound
    exact isFound

/-- A partition that is found by its values is the live object its alias is mapped to. -/
theorem found_partitionWithValues (settled : active.Settled)
    {partitionValues : Option (List String)} {partitionSchemeId : Option String} {item : Metafile}
    (isFound : active.catalog.found (Catalog.readerOf active.transaction.id)
      (partitionWithValues streamLocator partitionValues partitionSchemeId) = .ok (some item)) :
    ∃ parentIds id stored parents,
      active.catalog.ancestorIdsFrom (Catalog.readerOf active.transaction.id)
        streamLocator.names [] = .ok parentIds ∧
      active.catalog.live
        ⟨parentIds, .mapping (partitionAlias partitionValues partitionSchemeId)⟩ =
          some (.mapping id) ∧
      active.catalog.live ⟨parentIds, .metafile id⟩ = some (.metafile stored) ∧
      item = stored.withParents parents := by
  rcases Catalog.found_eq_some settled.numbered settled.seesAll isFound with
    ⟨dir, stored, parents, isResolved, isLive, isItem⟩
  rcases Catalog.ancestorIds_of_resolve isResolved with ⟨parentIds, isRoot⟩
  rw [Catalog.resolve_partitionWithValues settled.numbered settled.seesAll isRoot,
    Except.ok.injEq] at isResolved
  split at isResolved
  case isFalse => cases isResolved
  case isTrue =>
    rcases Option.map_eq_some_iff.mp isResolved with ⟨id, isId, rfl⟩
    rcases Option.bind_eq_some_iff.mp (nonEmpty_eq_some.mp isId).1 with
      ⟨content, isMapped, isContent⟩
    cases content with
    | metafile _ => cases isContent
    | mapping mapped =>
        cases isContent
        exact ⟨parentIds, id, stored, parents, isRoot, isMapped, isLive, isItem⟩

/-- A mapped alias is resolved to the object that it is mapped to. -/
theorem resolve_of_mapped {catalog : Catalog} {txnId : TransactionId} (numbered : catalog.Numbered)
    (allVisible : catalog.AllVisible txnId) {partitionValues : Option (List String)}
    {partitionSchemeId : Option String}
    (isDefined : (partitionAlias partitionValues partitionSchemeId).isDefined)
    {parentIds : List String}
    (isRoot : catalog.ancestorIdsFrom (Catalog.readerOf txnId) streamLocator.names [] =
      .ok parentIds) {id : String} (notEmpty : id ≠ "")
    (isMapped : catalog.live
      ⟨parentIds, .mapping (partitionAlias partitionValues partitionSchemeId)⟩ =
        some (.mapping id)) :
    catalog.resolve (Catalog.readerOf txnId)
      (partitionWithValues streamLocator partitionValues partitionSchemeId) =
        .ok (some ⟨parentIds, .metafile id⟩) := by
  rw [Catalog.resolve_partitionWithValues numbered allVisible isRoot, if_pos isDefined, isMapped]
  simp [nonEmpty_some notEmpty]

/-- With a scheme and a stream identifier, a lookup by values looks up nothing else. -/
theorem getPartition_eq {partitionValues : Option (List String)}
    {partitionSchemeId : Option String} (hasScheme : nonEmpty partitionSchemeId ≠ none)
    (hasStream : nonEmpty streamLocator.streamId ≠ none) :
    getPartition streamLocator partitionValues partitionSchemeId active =
      latest (partitionWithValues streamLocator partitionValues partitionSchemeId) active := by
  unfold getPartition resolveStream
  rw [if_neg (by simp [hasScheme, hasStream])]
  rfl

end Deltacat.Storage
