import Deltacat.Library.Procedure
import Deltacat.Storage.Metafile
import Deltacat.Storage.Schema

/-!
# Manifests

A manifest lists the files of a delta. Its metadata is computed from that of its entries,
which have to agree on the credentials and on the parameters of the content type that the
first one has (`Manifest.Agree`). Nothing else can go wrong: content types that differ are
forgotten before they are compared.
-/

namespace Deltacat.Storage

open Deltacat.Library

/-- A dictionary of strings, as the set of its items. -/
abbrev Dictionary := Finset (String × String)

inductive EntryType
  | data
  | positionalDelete
  | equalityDelete
  deriving DecidableEq

structure EntryParams where
  equalityFieldLocators : Option (List FieldLocator)
  deriving DecidableEq

/-- The metadata of a row group in a Parquet file. -/
structure RowGroupMetadata where
  numRows : ℕ
  totalByteSize : ℕ
  deriving DecidableEq

/-- `PartialParquetParameters`, whose row groups are described by the file's metadata. -/
structure PartialParquetParameters where
  rowGroupsToDownload : List ℕ
  numRowGroups : ℕ
  numRows : ℕ
  inMemorySizeBytes : ℕ
  pqMetadata : Option (List RowGroupMetadata)
  described : ∀ metadata ∈ pqMetadata, ∀ rowGroup ∈ rowGroupsToDownload,
    rowGroup < metadata.length
  deriving DecidableEq

/-- Parameters of a content type: those of a partial download, or a dictionary. -/
inductive ContentTypeParameters
  | partialParquet (parameters : PartialParquetParameters)
  | dictionary (items : Dictionary)
  deriving DecidableEq

structure ManifestMeta where
  recordCount : Option ℕ
  contentLength : Option ℕ
  sourceContentLength : Option ℕ
  contentType : Option String
  contentEncoding : Option String
  credentials : Option Dictionary
  contentTypeParameters : Option (List ContentTypeParameters)
  entryType : Option EntryType
  entryParams : Option EntryParams
  schemaId : Option ℤ
  sortSchemeId : Option String
  deriving DecidableEq

structure ManifestEntry where
  uri : String
  metadata : ManifestMeta
  mandatory : Bool
  id : Option String
  deriving DecidableEq

/-- An entry of a Parquet file with one row. -/
def parquetEntry (uri : String) : ManifestEntry where
  uri := uri
  metadata := ⟨some 1, some 1, some 1, some "application/parquet", some "identity", none, none,
    none, none, none, none⟩
  mandatory := true
  id := some uri

structure ManifestAuthor where
  name : Option String
  version : Option String
  deriving DecidableEq

structure Manifest where
  id : String
  metadata : ManifestMeta
  entries : List ManifestEntry
  author : Option ManifestAuthor
  deriving DecidableEq

namespace Manifest

/-- What the loop of `of` knows after some of the entries. -/
structure Totals where
  contentType : Option String
  contentEncoding : Option String
  recordCount : ℕ
  contentLength : ℕ
  sourceContentLength : ℕ

/-- What all the entries have to have, where it is given. -/
structure Expected where
  entryType : Option EntryType
  entryParams : Option EntryParams
  credentials : Option Dictionary
  contentTypeParams : Option (List ContentTypeParameters)

def visitEntry (expected : Expected) (totals : Totals) (entry : ManifestEntry) :
    Except Error Totals :=
  let metadata := entry.metadata
  let contentType := if metadata.contentType ≠ totals.contentType then none else totals.contentType
  let contentEncoding :=
    if metadata.contentEncoding ≠ totals.contentEncoding then none else totals.contentEncoding
  if (nonEmpty contentType).isSome ∧ metadata.contentType ≠ contentType then .error .valueError
  else if (nonEmpty contentEncoding).isSome ∧ metadata.contentEncoding ≠ contentEncoding then
    .error .valueError
  else if expected.entryType.isSome ∧ metadata.entryType ≠ expected.entryType then
    .error .valueError
  -- Parameters without field locators are an empty dictionary.
  else if (expected.entryParams.bind (·.equalityFieldLocators)).isSome ∧
      metadata.entryParams ≠ expected.entryParams then .error .valueError
  else if expected.credentials.getD ∅ ≠ ∅ ∧ metadata.credentials ≠ expected.credentials then
    .error .valueError
  else if expected.contentTypeParams.getD [] ≠ [] ∧
      metadata.contentTypeParameters ≠ expected.contentTypeParams then .error .valueError
  else .ok
    { contentType := contentType
      contentEncoding := contentEncoding
      recordCount := totals.recordCount + metadata.recordCount.getD 0
      contentLength := totals.contentLength + metadata.contentLength.getD 0
      sourceContentLength := totals.sourceContentLength + metadata.sourceContentLength.getD 0 }

/-- The latest schema identifier of the entries. -/
def latestSchemaId (entries : List ManifestEntry) : Option ℤ :=
  match entries.map fun entry => entry.metadata.schemaId.getD (-1) with
  | [] => none
  | id :: ids =>
      let maxSchemaId := ids.foldl max id
      if 0 ≤ maxSchemaId then some maxSchemaId else none

/-- The sort scheme of the entries, if it is the only one. -/
def commonSortSchemeId (entries : List ManifestEntry) : Option String :=
  match (entries.filterMap fun entry => entry.metadata.sortSchemeId).dedup with
  | [id] => some id
  | _ => none

/-- `Manifest.of`, which draws the identifier if it is given none. -/
def of (entries : List ManifestEntry) (author : Option ManifestAuthor) (uuid : String)
    (entryType : Option EntryType) (entryParams : Option EntryParams) :
    Except Error Manifest := do
  let first := entries.head?.map (·.metadata)
  let credentials := first.bind (·.credentials)
  let contentTypeParams := first.bind (·.contentTypeParameters)
  let totals ← entries.foldlM
    (visitEntry ⟨entryType, entryParams, credentials, contentTypeParams⟩)
    ⟨first.bind (·.contentType), first.bind (·.contentEncoding), 0, 0, 0⟩
  let metadata : ManifestMeta :=
    { recordCount := some totals.recordCount
      contentLength := some totals.contentLength
      sourceContentLength := some totals.sourceContentLength
      contentType := totals.contentType
      contentEncoding := totals.contentEncoding
      credentials := credentials
      contentTypeParameters := contentTypeParams
      entryType := entryType
      entryParams := entryParams
      schemaId := latestSchemaId entries
      sortSchemeId := commonSortSchemeId entries }
  return ⟨uuid, metadata, entries, author⟩

/-- `Manifest.merge_manifests`. -/
def mergeManifests (manifests : List Manifest) (author : Option ManifestAuthor) (uuid : String) :
    Except Error Manifest :=
  of (manifests.flatMap (·.entries)) author uuid none none

/-- An entry has the credentials and the parameters of another one that has any. -/
structure Follows (first entry : ManifestEntry) : Prop where
  credentials : first.metadata.credentials.getD ∅ ≠ ∅ →
    entry.metadata.credentials = first.metadata.credentials
  contentTypeParameters : first.metadata.contentTypeParameters.getD [] ≠ [] →
    entry.metadata.contentTypeParameters = first.metadata.contentTypeParameters

/-- The entries can be listed in one manifest. -/
def Agree (entries : List ManifestEntry) : Prop :=
  ∀ first ∈ entries.head?, ∀ entry ∈ entries, Follows first entry

/-- Only the credentials and the parameters of the content type are compared. -/
theorem exists_visitEntry_iff {first entry : ManifestEntry} (totals : Totals) :
    (∃ next, visitEntry
      ⟨none, none, first.metadata.credentials, first.metadata.contentTypeParameters⟩
      totals entry = .ok next) ↔ Follows first entry := by
  have forgotten : ∀ found known : Option String,
      ¬((nonEmpty (if found ≠ known then none else known)).isSome ∧
        found ≠ if found ≠ known then none else known) := by
    rintro found known ⟨isKnown, isOther⟩
    by_cases same : found = known
    · exact isOther (by simp [same])
    · simp [same, nonEmpty] at isKnown
  simp only [visitEntry, if_neg (forgotten _ _), Option.isSome_none, Bool.false_eq_true,
    false_and, if_false, Option.bind_none]
  split
  case isTrue isOther =>
    constructor
    · rintro ⟨_, isNext⟩
      cases isNext
    · intro follows
      exact absurd (follows.credentials isOther.1) isOther.2
  case isFalse sameCredentials =>
    split
    case isTrue isOther =>
      constructor
      · rintro ⟨_, isNext⟩
        cases isNext
      · intro follows
        exact absurd (follows.contentTypeParameters isOther.1) isOther.2
    case isFalse sameParameters =>
      refine ⟨fun _ => ⟨?_, ?_⟩, fun _ => ⟨_, rfl⟩⟩
      · intro isGiven
        by_contra isOther
        exact sameCredentials ⟨isGiven, isOther⟩
      · intro isGiven
        by_contra isOther
        exact sameParameters ⟨isGiven, isOther⟩

theorem exists_visitEntries_iff (first : ManifestEntry) (entries : List ManifestEntry)
    (totals : Totals) :
    (∃ final, entries.foldlM (visitEntry
      ⟨none, none, first.metadata.credentials, first.metadata.contentTypeParameters⟩)
      totals = .ok final) ↔ ∀ entry ∈ entries, Follows first entry := by
  induction entries generalizing totals with
  | nil => exact ⟨fun _ => by simp, fun _ => ⟨totals, rfl⟩⟩
  | cons entry entries ih =>
      rw [List.forall_mem_cons, ← exists_visitEntry_iff totals]
      constructor
      · rintro ⟨final, isFinal⟩
        rw [List.foldlM_cons] at isFinal
        rcases except_bind_eq_ok.mp isFinal with ⟨next, isNext, afterNext⟩
        exact ⟨⟨next, isNext⟩, (ih next).mp ⟨final, afterNext⟩⟩
      · rintro ⟨⟨next, isNext⟩, follow⟩
        rcases (ih next).mpr follow with ⟨final, isFinal⟩
        refine ⟨final, ?_⟩
        rw [List.foldlM_cons, isNext]
        exact isFinal

variable {entries : List ManifestEntry} {author : Option ManifestAuthor} {uuid : String}

/-- Entries can be listed if they agree. -/
theorem exists_of_iff :
    (∃ manifest, of entries author uuid none none = .ok manifest) ↔ Agree entries := by
  have loop : (∃ manifest, of entries author uuid none none = .ok manifest) ↔
      ∃ final, entries.foldlM (visitEntry ⟨none, none,
        (entries.head?.map (·.metadata)).bind (·.credentials),
        (entries.head?.map (·.metadata)).bind (·.contentTypeParameters)⟩)
        ⟨(entries.head?.map (·.metadata)).bind (·.contentType),
          (entries.head?.map (·.metadata)).bind (·.contentEncoding), 0, 0, 0⟩ = .ok final := by
    simp only [of]
    constructor
    · rintro ⟨manifest, isManifest⟩
      rcases except_bind_eq_ok.mp isManifest with ⟨final, isFinal, _⟩
      exact ⟨final, isFinal⟩
    · rintro ⟨final, isFinal⟩
      exact ⟨_, except_bind_eq_ok.mpr ⟨final, isFinal, rfl⟩⟩
  rw [loop]
  cases entries with
  | nil => exact ⟨fun _ => by simp [Agree], fun _ => ⟨_, rfl⟩⟩
  | cons first entries =>
      have visited := exists_visitEntries_iff first (first :: entries)
        ⟨first.metadata.contentType, first.metadata.contentEncoding, 0, 0, 0⟩
      simpa [Agree] using visited

/-- A manifest lists the entries it is made of. -/
theorem of_eq_ok {manifest : Manifest}
    (isManifest : of entries author uuid none none = .ok manifest) :
    manifest.entries = entries ∧ manifest.id = uuid ∧ manifest.author = author := by
  rcases except_bind_eq_ok.mp isManifest with ⟨_, _, isResult⟩
  cases isResult
  exact ⟨rfl, rfl, rfl⟩

end Manifest

end Deltacat.Storage
