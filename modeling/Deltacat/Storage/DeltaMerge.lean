import Deltacat.Storage.Manifest

/-!
# Merging deltas

Deltas with their manifests. The delta that several deltas are merged to lists the entries
of all of them in order (`Delta.mergeDeltas_eq_ok`).
-/

namespace Deltacat.Storage

open Deltacat.Library

namespace Locator

/-- `stream_format` of the locator of a partition. -/
def streamFormat (partitionLocator : Locator) : Option String :=
  partitionLocator.parents.getLast?.bind fun
    | .streamName _ format => format
    | _ => none

end Locator

structure DeltaLocator where
  partitionLocator : Locator
  streamPosition : Option ℕ
  deriving DecidableEq

structure Delta where
  locator : DeltaLocator
  type : Option DeltaType
  metadata : Option ManifestMeta
  properties : Option Dictionary
  manifest : Option Manifest
  previousStreamPosition : Option ℕ
  deriving DecidableEq

namespace Delta

def storageType (delta : Delta) : Option String :=
  delta.locator.partitionLocator.streamFormat

/-- `Delta.of`. -/
def of (locator : DeltaLocator) (type : Option DeltaType) (metadata : Option ManifestMeta)
    (properties : Option Dictionary) (manifest : Option Manifest)
    (previousStreamPosition : Option ℕ) : Delta :=
  ⟨locator, type, metadata, properties, manifest, previousStreamPosition⟩

/-- The type of a delta that is merged of deltas with the types. -/
def mergeTypes (types : List (Option DeltaType)) : Except Error (Option DeltaType) :=
  -- The order of the appended deltas is lost.
  if types.toFinset = {some .add, some .append} then .ok (some .add)
  else if 1 < types.toFinset.card then .error .valueError
  else .ok types.head?.join

/-- The greatest of the previous positions, if all are known. -/
def mergePreviousPositions (positions : List (Option ℕ)) : Option ℕ :=
  if none ∈ positions then none else (positions.filterMap id).max?

/-- `Delta.merge_deltas`; the identifier of the manifest is drawn. -/
def mergeDeltas (deltas : List Delta) (manifestAuthor : Option ManifestAuthor)
    (streamPosition : Option ℕ) (properties : Option Dictionary) (uuid : String) :
    Except Error Delta :=
  match deltas with
  | [] => .error .valueError
  | first :: _ =>
      if ∃ delta ∈ deltas, delta.manifest = none then .error .valueError
      else if 1 < (deltas.map (·.storageType)).toFinset.card then .error .notImplementedError
      -- The digest of a locator is that of its own name.
      else if 1 < (deltas.map (·.locator.partitionLocator.name)).toFinset.card then
        .error .valueError
      else do
        let type ← mergeTypes (deltas.map (·.type))
        let mergedManifest ← Manifest.mergeManifests (deltas.filterMap (·.manifest))
          manifestAuthor uuid
        return Delta.of ⟨first.locator.partitionLocator, streamPosition⟩ type
          (some mergedManifest.metadata) properties (some mergedManifest)
          (mergePreviousPositions (deltas.map (·.previousStreamPosition)))

/-- The entries of the manifest. -/
def entries (delta : Delta) : List ManifestEntry :=
  (delta.manifest.map (·.entries)).getD []

/-- Deltas that can be merged. -/
structure Mergeable (deltas : List Delta) : Prop where
  nonempty : deltas ≠ []
  manifests : ∀ delta ∈ deltas, delta.manifest.isSome
  storageTypes : ∀ left ∈ deltas, ∀ right ∈ deltas, left.storageType = right.storageType
  partitions : ∀ left ∈ deltas, ∀ right ∈ deltas,
    left.locator.partitionLocator.name = right.locator.partitionLocator.name
  types : (∀ left ∈ deltas, ∀ right ∈ deltas, left.type = right.type) ∨
    ∀ delta ∈ deltas, delta.type = some .add ∨ delta.type = some .append
  agree : Manifest.Agree (deltas.flatMap entries)

theorem not_one_lt_card_iff {Value : Type} [DecidableEq Value] (value : Delta → Value)
    {deltas : List Delta} :
    ¬1 < (deltas.map value).toFinset.card ↔
      ∀ left ∈ deltas, ∀ right ∈ deltas, value left = value right := by
  rw [not_lt, Finset.card_le_one]
  simp

theorem exists_mergeTypes_iff {deltas : List Delta} :
    (∃ type, mergeTypes (deltas.map (·.type)) = .ok type) ↔
      (∀ left ∈ deltas, ∀ right ∈ deltas, left.type = right.type) ∨
        ∀ delta ∈ deltas, delta.type = some .add ∨ delta.type = some .append := by
  unfold mergeTypes
  by_cases areBoth : (deltas.map (·.type)).toFinset = {some .add, some .append}
  · rw [if_pos areBoth]
    refine ⟨fun _ => Or.inr ?_, fun _ => ⟨_, rfl⟩⟩
    intro delta deltaMem
    have typeMem : delta.type ∈ (deltas.map (·.type)).toFinset :=
      List.mem_toFinset.mpr (List.mem_map_of_mem deltaMem)
    simpa [areBoth] using typeMem
  · rw [if_neg areBoth]
    have isOne : (∃ type, (if 1 < (deltas.map (·.type)).toFinset.card then
        (.error .valueError : Except Error (Option DeltaType))
        else .ok (deltas.map (·.type)).head?.join) = .ok type) ↔
          ∀ left ∈ deltas, ∀ right ∈ deltas, left.type = right.type := by
      rw [← not_one_lt_card_iff]
      split
      case isTrue isMore => simpa using isMore
      case isFalse notMore => simpa using notMore
    rw [isOne]
    refine ⟨Or.inl, ?_⟩
    rintro (areSame | areOrdered)
    · exact areSame
    · intro left leftMem right rightMem
      by_contra areOther
      apply areBoth
      have bothMem : ∀ type, type = some DeltaType.add ∨ type = some .append →
          type ∈ (deltas.map (·.type)).toFinset := by
        intro type isEither
        rw [List.mem_toFinset, List.mem_map]
        have leftType := areOrdered left leftMem
        have rightType := areOrdered right rightMem
        rcases isEither with rfl | rfl <;> rcases leftType with isLeft | isLeft <;>
          rcases rightType with isRight | isRight
        all_goals first
          | exact ⟨left, leftMem, isLeft⟩
          | exact ⟨right, rightMem, isRight⟩
          | exact absurd (isLeft.trans isRight.symm) areOther
      ext type
      rw [Finset.mem_insert, Finset.mem_singleton]
      refine ⟨fun typeMem => ?_, bothMem type⟩
      rcases List.mem_map.mp (List.mem_toFinset.mp typeMem) with ⟨delta, deltaMem, rfl⟩
      exact areOrdered delta deltaMem

theorem flatMap_filterMap_manifest {deltas : List Delta} :
    (deltas.filterMap (·.manifest)).flatMap (·.entries) = deltas.flatMap entries := by
  induction deltas with
  | nil => rfl
  | cons delta deltas ih =>
      cases isManifest : delta.manifest with
      | none => simpa [isManifest, entries] using ih
      | some manifest => simpa [isManifest, entries] using ih

variable {deltas : List Delta} {manifestAuthor : Option ManifestAuthor}
  {streamPosition : Option ℕ} {properties : Option Dictionary} {uuid : String}

/-- What is checked before deltas are merged, and how they are. -/
theorem mergeDeltas_eq_ok_iff {merged : Delta} :
    mergeDeltas deltas manifestAuthor streamPosition properties uuid = .ok merged ↔
      (∀ delta ∈ deltas, delta.manifest.isSome) ∧
      (∀ left ∈ deltas, ∀ right ∈ deltas, left.storageType = right.storageType) ∧
      (∀ left ∈ deltas, ∀ right ∈ deltas,
        left.locator.partitionLocator.name = right.locator.partitionLocator.name) ∧
      ∃ first ∈ deltas.head?, ∃ type, mergeTypes (deltas.map (·.type)) = .ok type ∧
        ∃ mergedManifest,
          Manifest.of (deltas.flatMap entries) manifestAuthor uuid none none =
            .ok mergedManifest ∧
          merged = Delta.of ⟨first.locator.partitionLocator, streamPosition⟩ type
            (some mergedManifest.metadata) properties (some mergedManifest)
            (mergePreviousPositions (deltas.map (·.previousStreamPosition))) := by
  cases deltas with
  | nil => simp [mergeDeltas]
  | cons first deltas =>
      simp only [mergeDeltas, Manifest.mergeManifests, flatMap_filterMap_manifest]
      split
      case isTrue isMissing =>
        rcases isMissing with ⟨delta, deltaMem, isNone⟩
        refine ⟨fun isError => (nomatch isError), fun ⟨manifests, _⟩ => ?_⟩
        have isSome := manifests delta deltaMem
        simp [isNone] at isSome
      case isFalse noneMissing =>
        have manifests : ∀ delta ∈ first :: deltas, delta.manifest.isSome := by
          intro delta deltaMem
          by_contra isMissing
          exact noneMissing ⟨delta, deltaMem, by simpa using isMissing⟩
        split
        case isTrue areOther =>
          refine ⟨fun isError => (nomatch isError), fun ⟨_, storageTypes, _⟩ => ?_⟩
          exact absurd areOther ((not_one_lt_card_iff storageType).mpr storageTypes)
        case isFalse sameStorageTypes =>
          split
          case isTrue areOther =>
            refine ⟨fun isError => (nomatch isError), fun ⟨_, _, partitions, _⟩ => ?_⟩
            exact absurd areOther
              ((not_one_lt_card_iff (·.locator.partitionLocator.name)).mpr partitions)
          case isFalse samePartitions =>
            constructor
            · intro isMerged
              rcases except_bind_eq_ok.mp isMerged with ⟨type, isType, afterType⟩
              rcases except_bind_eq_ok.mp afterType with ⟨mergedManifest, isManifest, isResult⟩
              cases isResult
              exact ⟨manifests, (not_one_lt_card_iff storageType).mp sameStorageTypes,
                (not_one_lt_card_iff (·.locator.partitionLocator.name)).mp samePartitions,
                first, rfl, type, isType, mergedManifest, isManifest, rfl⟩
            · rintro ⟨_, _, _, _, isFirst, type, isType, mergedManifest, isManifest, rfl⟩
              cases isFirst
              exact except_bind_eq_ok.mpr ⟨type, isType,
                except_bind_eq_ok.mpr ⟨mergedManifest, isManifest, rfl⟩⟩

/-- The merged delta lists the entries of all the deltas in order. -/
theorem mergeDeltas_eq_ok {merged : Delta}
    (isMerged : mergeDeltas deltas manifestAuthor streamPosition properties uuid = .ok merged) :
    merged.entries = deltas.flatMap entries ∧ merged.manifest.isSome ∧
      merged.locator.streamPosition = streamPosition := by
  rcases mergeDeltas_eq_ok_iff.mp isMerged with
    ⟨_, _, _, first, _, type, _, mergedManifest, isManifest, rfl⟩
  exact ⟨(Manifest.of_eq_ok isManifest).1, rfl, rfl⟩

theorem exists_mergeDeltas_iff :
    (∃ merged, mergeDeltas deltas manifestAuthor streamPosition properties uuid = .ok merged) ↔
      Mergeable deltas := by
  constructor
  · rintro ⟨merged, isMerged⟩
    rcases mergeDeltas_eq_ok_iff.mp isMerged with
      ⟨manifests, storageTypes, partitions, first, isFirst, type, isType, mergedManifest,
        isManifest, _⟩
    refine ⟨?_, manifests, storageTypes, partitions, exists_mergeTypes_iff.mp ⟨type, isType⟩,
      Manifest.exists_of_iff.mp ⟨mergedManifest, isManifest⟩⟩
    rintro rfl
    cases isFirst
  · intro mergeable
    rcases exists_mergeTypes_iff.mpr mergeable.types with ⟨type, isType⟩
    rcases Manifest.exists_of_iff.mpr mergeable.agree with ⟨mergedManifest, isManifest⟩
    exact ⟨_, mergeDeltas_eq_ok_iff.mpr ⟨mergeable.manifests, mergeable.storageTypes,
      mergeable.partitions, _, List.head?_eq_some_head mergeable.nonempty, type, isType,
      mergedManifest, isManifest, rfl⟩⟩

end Delta

end Deltacat.Storage
