import Deltacat.Exceptions
import Deltacat.Library.JsonText
import Deltacat.Library.Procedure
import Deltacat.Library.UrlSyntax
import Mathlib.Tactic

/-!
# URLs of stored objects

Table versions, partitions and deltas write their locators as URLs, and
`DeltaCatUrl` reads URLs. A URL with a catalog name is read back exactly if no
element of its path is cut or renamed: the JSON of the partition values is not
quoted, and a slash or a question mark in a value ends it. A URL without a catalog
name begins with the namespace under the scheme for tables, and is never read back
(`urlRoundTrips_iff`).
-/

namespace Deltacat.Utils

open Library

section Reading

inductive StreamFormat
  | deltacat
  | iceberg
  | hive
  | hudi
  | deltaLake
  | sqlite3
  deriving DecidableEq

namespace StreamFormat

def text : StreamFormat → List Char
  | .deltacat => "deltacat".toList
  | .iceberg => "iceberg".toList
  | .hive => "hive".toList
  | .hudi => "hudi".toList
  | .deltaLake => "delta_lake".toList
  | .sqlite3 => "SQLITE3".toList

def all : List StreamFormat := [.deltacat, .iceberg, .hive, .hudi, .deltaLake, .sqlite3]

/-- `StreamFormat(text)`. -/
def ofText (text : List Char) : Except Error StreamFormat :=
  match all.find? fun format => format.text = text with
  | some format => .ok format
  | none => .error .valueError

end StreamFormat

/-- The kinds of datastores: those of catalog objects that URLs are read for, and the others. -/
inductive DatastoreType
  | deltacat
  | deltacatNamespace
  | deltacatTable
  | other (text : List Char)
  deriving DecidableEq

namespace DatastoreType

def otherTexts : List (List Char) :=
  ["tableversion", "stream", "partition", "delta", "audio", "avro", "bigquery", "binary", "csv",
    "clickhouse", "databricks", "deltalake", "deltasharing", "feather", "hdf", "html", "hudi",
    "iceberg", "images", "json", "lance", "mongodb", "numpy", "orc", "parquet", "text",
    "tfrecords", "videos", "warc", "webdataset", "xml"].map String.toList

/-- `DatastoreType(text)`. -/
def ofText (text : List Char) : Except Error DatastoreType :=
  if text = "dc".toList then .ok .deltacat
  else if text = "namespace".toList then .ok .deltacatNamespace
  else if text = "table".toList then .ok .deltacatTable
  else if text ∈ otherTexts then .ok (.other text)
  else .error .valueError

end DatastoreType

/-- `DELTACAT_URL_DEFAULT_NAMESPACE`, also the default of the other elements. -/
def urlDefault : List Char := "default".toList

/-- `DEFAULT_NAMESPACE`. -/
def defaultNamespace : List Char := "default".toList

/-- The text is the default in any case. Of all characters only letters A to Z have those of it. -/
def isUrlDefault (text : List Char) : Bool := text.map Char.toLower = urlDefault

/-- `DeltaCatUrl`. -/
structure DeltaCatUrl where
  catalogName : Option (List Char)
  namespaceName : Option (List Char)
  table : Option (List Char)
  tableVersion : Option (List Char)
  stream : Option StreamFormat
  partition : Option (List Char)
  delta : Option (List Char)

namespace DeltaCatUrl

def resolveStream : Option (List Char) → Except Error (Option StreamFormat)
  | none | some [] => .ok none
  | some text =>
      if isUrlDefault text then .ok (some .deltacat) else (StreamFormat.ofText text).map some

/-- `_resolve_deltacat_path_identifiers`, with the elements that need no resolution. -/
def resolve (catalogName : List Char)
    (unresolvedNamespace table unresolvedTableVersion unresolvedStream partition delta :
      Option (List Char)) : Except Error DeltaCatUrl :=
  (resolveStream unresolvedStream).map fun stream => {
    catalogName := some catalogName
    namespaceName := (unresolvedNamespace.filter (· ≠ [])).map fun text =>
      if isUrlDefault text then defaultNamespace else text
    table := table
    tableVersion := unresolvedTableVersion.filter fun text => text ≠ [] ∧ ¬isUrlDefault text
    stream := stream
    partition := partition
    delta := delta }

/-- A URL of a datastore that is no catalog, of which no element is read. -/
def external : DeltaCatUrl where
  catalogName := none
  namespaceName := none
  table := none
  tableVersion := none
  stream := none
  partition := none
  delta := none

/-- `DeltaCatUrl.__init__`, in a process where DeltaCAT is initialized. -/
def of (netlocIsValid : List Char → Bool) (url : List Char) : Except Error DeltaCatUrl :=
  match urlsplit netlocIsValid url with
  | none => .error .valueError
  | some parsed => do
      let elements := pathElements parsed.path
      let schemeElements := parsed.scheme.splitOn '+'
      let datastoreType ← DatastoreType.ofText (schemeElements.headD [])
      if schemeElements.length > 2 then throw .valueError
      else match datastoreType with
        | .deltacat =>
            resolve parsed.netloc elements[0]? elements[1]? elements[2]? elements[3]?
              elements[4]? elements[5]?
        | .deltacatNamespace =>
            resolve urlDefault (some parsed.netloc) elements[0]? elements[1]? elements[2]?
              elements[3]? elements[4]?
        | .deltacatTable =>
            resolve urlDefault (some urlDefault) (some parsed.netloc) elements[0]? elements[1]?
              elements[2]? elements[3]?
        | .other _ => return external

end DeltaCatUrl

end Reading

section Writing

/-- A name without the separators of URLs. -/
structure UrlName where
  text : List Char
  noSeparator : ∀ char ∈ text, isDelimiter char = false

/--
What the URL of a table version is written from. Names are the characters of a URL here, and
partition values keep their types, which the locators of the catalog do without.
-/
structure TableVersion where
  namespaceName : UrlName
  tableName : UrlName
  tableVersion : List Char

/-- What the URL of a partition is written from. -/
structure Partition extends TableVersion where
  streamFormat : StreamFormat
  partitionValues : Option (List JsonValue)

/-- What the URL of a delta is written from. -/
structure Delta extends Partition where
  streamPosition : ℤ

/-- `given or own`. -/
def orOwn (given : Option (List Char)) (own : List Char) : List Char :=
  (given.filter (· ≠ [])).getD own

/-- The URL of an object whose locator is given by the elements. -/
def objectUrl (catalogName : Option (List Char)) (elements : List (List Char)) : List Char :=
  match catalogName.filter (· ≠ []) with
  | some catalogName => "dc://".toList ++ joinElements (catalogName :: elements)
  | none => "table://".toList ++ joinElements elements

/-- `TableVersion.url`. -/
def TableVersion.url (self : TableVersion) (catalogName namespaceName tableName :
    Option (List Char)) : List Char :=
  objectUrl catalogName
    [orOwn namespaceName self.namespaceName.text, orOwn tableName self.tableName.text,
      self.tableVersion]

/-- The partition values as a value of JSON. -/
def Partition.valuesJson (self : Partition) : JsonValue :=
  match self.partitionValues with
  | none => .null
  | some values => .list values

/-- `Partition.url`. -/
def Partition.url (self : Partition) (catalogName namespaceName tableName :
    Option (List Char)) : List Char :=
  objectUrl catalogName
    [orOwn namespaceName self.namespaceName.text, orOwn tableName self.tableName.text,
      self.tableVersion, self.streamFormat.text, self.valuesJson.dumps]

/-- `Delta.url`. -/
def Delta.url (self : Delta) (catalogName namespaceName tableName : Option (List Char)) :
    List Char :=
  objectUrl catalogName
    [orOwn namespaceName self.namespaceName.text, orOwn tableName self.tableName.text,
      self.tableVersion, self.streamFormat.text, self.valuesJson.dumps,
      (toString self.streamPosition).toList]

/-- A committed object that has a URL of its own. -/
inductive StoredObject
  | tableVersion (object : TableVersion)
  | partition (object : Partition)
  | delta (object : Delta)

namespace StoredObject

/-- The URL of an object, under its own names. -/
def url (catalogName : Option (List Char)) : StoredObject → List Char
  | .tableVersion object => object.url catalogName none none
  | .partition object => object.url catalogName none none
  | .delta object => object.url catalogName none none

/-- The part of the locator that all objects have. -/
def version : StoredObject → TableVersion
  | .tableVersion object => object
  | .partition object => object.toTableVersion
  | .delta object => object.toTableVersion

def streamFormat : StoredObject → Option StreamFormat
  | .tableVersion _ => none
  | .partition object => some object.streamFormat
  | .delta object => some object.streamFormat

def valuesJson : StoredObject → Option JsonValue
  | .tableVersion _ => none
  | .partition object => some object.valuesJson
  | .delta object => some object.valuesJson

def streamPosition : StoredObject → Option ℤ
  | .delta object => some object.streamPosition
  | _ => none

end StoredObject

/--
The parsed URL has the locator of the object, with the partition values as the
text that `json.loads` is called with, and the stream position as a numeral.
-/
structure DeltaCatUrl.IsLocatorOf (url : DeltaCatUrl) (object : StoredObject) : Prop where
  namespaceName : url.namespaceName = some object.version.namespaceName.text
  table : url.table = some object.version.tableName.text
  tableVersion : url.tableVersion = some object.version.tableVersion
  stream : url.stream = object.streamFormat
  partition : url.partition = object.valuesJson.map JsonValue.dumps
  delta : url.delta = object.streamPosition.map fun position => (toString position).toList

/-- The URL of the object, with a catalog name or without, is read back as its locator. -/
def UrlRoundTrips (netlocIsValid : List Char → Bool) (object : StoredObject)
    (catalogName : Option UrlName) : Prop :=
  ∃ url, DeltaCatUrl.of netlocIsValid (object.url (catalogName.map UrlName.text)) = .ok url ∧
    url.IsLocatorOf object

end Writing

section Elements

variable {netlocIsValid : List Char → Bool} {catalogName : List Char}
  {elements : List (List Char)} {object : StoredObject}

namespace StoredObject

/-- The elements of the path that an object is found at. -/
def urlElements (object : StoredObject) : List (List Char) :=
  [object.version.namespaceName.text, object.version.tableName.text,
      object.version.tableVersion] ++
    (object.streamFormat.map StreamFormat.text).toList ++
    (object.valuesJson.map JsonValue.dumps).toList ++
    (object.streamPosition.map fun position => (toString position).toList).toList

theorem url_eq (catalogName : Option (List Char)) :
    object.url catalogName = objectUrl catalogName object.urlElements := by
  cases object with
  | tableVersion object => rfl
  | partition object => rfl
  | delta object => rfl

end StoredObject

/-- A URL with a catalog name is read as its elements. -/
theorem DeltaCatUrl.of_objectUrl (isName : catalogName ≠ [])
    (noSeparator : ∀ char ∈ catalogName, isDelimiter char = false) :
    DeltaCatUrl.of netlocIsValid (objectUrl (some catalogName) elements) =
      if netlocIsValid (withoutUnsafe catalogName) then
        let read := elementsBehind (joinElements elements)
        resolve (withoutUnsafe catalogName) read[0]? read[1]? read[2]? read[3]? read[4]? read[5]?
      else .error .valueError := by
  have isUrl : objectUrl (some catalogName) elements =
      "dc".toList ++ ':' :: '/' :: '/' :: catalogName ++ '/' :: joinElements elements := by
    simp [objectUrl, Option.filter_some, isName, joinElements]
  rw [isUrl, DeltaCatUrl.of,
    urlsplit_eq netlocIsValid ⟨by decide, List.all_eq_true.mp (by decide)⟩ noSeparator]
  by_cases isValid : netlocIsValid (withoutUnsafe catalogName)
  · rw [if_pos isValid, if_pos isValid]
    simp only [pathElements_slash_cons]
    rfl
  · rw [if_neg isValid, if_neg isValid]

/-- A URL without a catalog name is read as one of the default namespace. -/
theorem DeltaCatUrl.of_objectUrl_none {first : List Char}
    (noSeparator : ∀ char ∈ first, isDelimiter char = false) {catalogName : Option (List Char)}
    (noName : catalogName.filter (· ≠ []) = none) :
    DeltaCatUrl.of netlocIsValid (objectUrl catalogName (first :: elements)) =
      if netlocIsValid (withoutUnsafe first) then
        let read := elementsBehind (joinElements elements)
        resolve urlDefault (some urlDefault) (some (withoutUnsafe first)) read[0]? read[1]? read[2]?
          read[3]?
      else .error .valueError := by
  have isUrl : objectUrl catalogName (first :: elements) =
      "table".toList ++ ':' :: '/' :: '/' :: first ++ '/' :: joinElements elements := by
    rw [objectUrl, noName]
    simp [joinElements]
  rw [isUrl, DeltaCatUrl.of,
    urlsplit_eq netlocIsValid ⟨by decide, List.all_eq_true.mp (by decide)⟩ noSeparator]
  by_cases isValid : netlocIsValid (withoutUnsafe first)
  · rw [if_pos isValid, if_pos isValid]
    simp only [pathElements_slash_cons]
    rfl
  · rw [if_neg isValid, if_neg isValid]

theorem DeltaCatUrl.resolve_eq_ok {url : DeltaCatUrl}
    {namespaceName table tableVersion stream partition delta : Option (List Char)}
    (isUrl : resolve catalogName namespaceName table tableVersion stream partition delta =
      .ok url) :
    url.namespaceName = (namespaceName.filter (· ≠ [])).map (fun text =>
        if isUrlDefault text then defaultNamespace else text) ∧
      url.table = table ∧
      url.tableVersion = tableVersion.filter (fun text => text ≠ [] ∧ ¬isUrlDefault text) ∧
      url.partition = partition := by
  unfold resolve at isUrl
  cases isStream : resolveStream stream with
  | error error =>
      rw [isStream] at isUrl
      cases isUrl
  | ok format =>
      rw [isStream] at isUrl
      cases isUrl
      exact ⟨rfl, rfl, rfl, rfl⟩

theorem DeltaCatUrl.resolveStream_text (format : StreamFormat) :
    resolveStream (some format.text) = .ok (some format) := by
  cases format with
  | _ => decide

theorem isPathElement_iff {element : List Char} :
    IsPathElement element ↔ element ≠ [] ∧ ∀ char, IsSpecial char → char ∉ element := by
  constructor
  · rintro ⟨nonempty, isPlain⟩
    refine ⟨nonempty, fun char isSpecial charMem => ?_⟩
    have isPlain := isPlain char charMem
    rcases isSpecial with rfl | rfl | rfl | rfl | rfl
    all_goals
      revert isPlain
      decide
  · rintro ⟨nonempty, noSpecial⟩
    refine ⟨nonempty, fun char charMem => ?_⟩
    have notSpecial : ¬IsSpecial char := fun isSpecial => noSpecial char isSpecial charMem
    simp only [IsSpecial, not_or] at notSpecial
    simp [isUnsafe, notSpecial]

theorem isPathElement_toString (position : ℤ) : IsPathElement (toString position).toList := by
  refine isPathElement_iff.mpr ⟨fun isNil => ?_, fun _ isSpecial => notMem_toString isSpecial _⟩
  rw [Int.toString_eq_repr, Int.repr_eq_if] at isNil
  split at isNil
  · rw [Nat.repr_eq_ofList_toDigits, String.toList_ofList] at isNil
    exact Nat.toDigits_ne_nil isNil
  · rw [String.toList_append] at isNil
    cases isNil

theorem isPathElement_dumps_iff {json : JsonValue} (nonempty : json.dumps ≠ []) :
    IsPathElement json.dumps ↔ ∀ text ∈ json.texts, '/' ∉ text ∧ '?' ∉ text := by
  rw [isPathElement_iff, and_iff_right nonempty]
  constructor
  · intro noSpecial text textMem
    constructor
    · intro slashMem
      exact noSpecial '/' (Or.inl rfl)
        ((mem_dumps_iff (Or.inl rfl) json).mpr ⟨Or.inl rfl, text, textMem, slashMem⟩)
    · intro questionMem
      exact noSpecial '?' (Or.inr (Or.inl rfl))
        ((mem_dumps_iff (Or.inr (Or.inl rfl)) json).mpr ⟨Or.inr rfl, text, textMem, questionMem⟩)
  · intro noSeparators char isSpecial charMem
    rcases (mem_dumps_iff isSpecial json).mp charMem with ⟨rfl | rfl, text, textMem, charMem⟩
    · exact (noSeparators text textMem).1 charMem
    · exact (noSeparators text textMem).2 charMem

theorem isPathElement_text (format : StreamFormat) : IsPathElement format.text := by
  cases format with
  | _ => exact isPathElement_of_all (by decide) (by decide)

theorem Partition.dumps_valuesJson_ne_nil (partition : Partition) :
    partition.valuesJson.dumps ≠ [] := by
  unfold Partition.valuesJson
  cases partition.partitionValues with
  | none => decide
  | some values => simp [JsonValue.dumps]

/--
The catalog has a name that is accepted as a location, no name is cut, dropped or
taken for a default, and no partition value has a separator in it.
-/
structure StoredObject.IsReadable (netlocIsValid : List Char → Bool) (object : StoredObject)
    (catalogName : Option UrlName) : Prop where
  catalogName : ∃ name, catalogName = some name ∧ name.text ≠ [] ∧
    netlocIsValid (withoutUnsafe name.text)
  namespaceName : IsPathElement object.version.namespaceName.text ∧
    (isUrlDefault object.version.namespaceName.text →
      object.version.namespaceName.text = defaultNamespace)
  tableName : IsPathElement object.version.tableName.text
  tableVersion : IsPathElement object.version.tableVersion ∧
    ¬isUrlDefault object.version.tableVersion
  partitionValues : ∀ json ∈ object.valuesJson, ∀ text ∈ json.texts, '/' ∉ text ∧ '?' ∉ text

theorem StoredObject.isPathElement_valuesJson_iff {json : JsonValue}
    (jsonMem : json ∈ object.valuesJson) :
    IsPathElement json.dumps ↔ ∀ text ∈ json.texts, '/' ∉ text ∧ '?' ∉ text := by
  apply isPathElement_dumps_iff
  cases object with
  | tableVersion object => cases jsonMem
  | partition object =>
      cases jsonMem
      exact object.dumps_valuesJson_ne_nil
  | delta object =>
      cases jsonMem
      exact object.dumps_valuesJson_ne_nil

variable {name : Option UrlName}

/-- All elements of the path of a readable object are read as they are. -/
theorem StoredObject.IsReadable.areElements (isReadable : object.IsReadable netlocIsValid name) :
    ∀ element ∈ object.urlElements, IsPathElement element := by
  intro element elementMem
  simp only [urlElements, List.mem_append, List.mem_cons, List.not_mem_nil, or_false,
    Option.mem_toList, Option.map_eq_some_iff, or_assoc] at elementMem
  rcases elementMem with rfl | rfl | rfl | ⟨format, -, rfl⟩ | ⟨json, jsonMem, rfl⟩ |
    ⟨position, -, rfl⟩
  · exact isReadable.namespaceName.1
  · exact isReadable.tableName
  · exact isReadable.tableVersion.1
  · exact isPathElement_text format
  · exact (isPathElement_valuesJson_iff jsonMem).mpr (isReadable.partitionValues json jsonMem)
  · exact isPathElement_toString position

theorem StoredObject.resolveStream_urlElements (object : StoredObject) :
    DeltaCatUrl.resolveStream object.urlElements[3]? = .ok object.streamFormat := by
  cases object with
  | tableVersion object => rfl
  | partition object => exact DeltaCatUrl.resolveStream_text object.streamFormat
  | delta object => exact DeltaCatUrl.resolveStream_text object.streamFormat

/-- The elements that are resolved without a failure. -/
theorem StoredObject.urlElements_getElem? (object : StoredObject) :
    object.urlElements[0]? = some object.version.namespaceName.text ∧
      object.urlElements[1]? = some object.version.tableName.text ∧
      object.urlElements[2]? = some object.version.tableVersion ∧
      object.urlElements[4]? = object.valuesJson.map JsonValue.dumps ∧
      object.urlElements[5]? =
        object.streamPosition.map fun position => (toString position).toList := by
  cases object with
  | tableVersion object => exact ⟨rfl, rfl, rfl, rfl, rfl⟩
  | partition object => exact ⟨rfl, rfl, rfl, rfl, rfl⟩
  | delta object => exact ⟨rfl, rfl, rfl, rfl, rfl⟩

/-- The URL that is read back from the object's own. -/
def StoredObject.toUrl (object : StoredObject) (catalogName : List Char) : DeltaCatUrl where
  catalogName := some catalogName
  namespaceName := some object.version.namespaceName.text
  table := some object.version.tableName.text
  tableVersion := some object.version.tableVersion
  stream := object.streamFormat
  partition := object.valuesJson.map JsonValue.dumps
  delta := object.streamPosition.map fun position => (toString position).toList

theorem UrlRoundTrips.of_isReadable (isReadable : object.IsReadable netlocIsValid name) :
    UrlRoundTrips netlocIsValid object name := by
  rcases isReadable.catalogName with ⟨catalog, rfl, isName, isValid⟩
  rcases object.urlElements_getElem? with ⟨first, second, third, fifth, sixth⟩
  have isRead := elementsBehind_joinElements isReadable.areElements
  have isNamespace : (if isUrlDefault object.version.namespaceName.text then defaultNamespace
      else object.version.namespaceName.text) = object.version.namespaceName.text := by
    split
    next isDefault => exact (isReadable.namespaceName.2 isDefault).symm
    next => rfl
  refine ⟨object.toUrl (withoutUnsafe catalog.text), ?_, ⟨rfl, rfl, rfl, rfl, rfl, rfl⟩⟩
  rw [StoredObject.url_eq, Option.map_some, DeltaCatUrl.of_objectUrl isName catalog.noSeparator,
    if_pos isValid]
  simp only [isRead, DeltaCatUrl.resolve, object.resolveStream_urlElements, first, second, third,
    fifth, sixth, Except.map, Option.filter_some, isReadable.namespaceName.1.nonempty, ne_eq,
    not_false_eq_true, decide_true, if_true, Option.map_some, isNamespace,
    isReadable.tableVersion.1.nonempty, isReadable.tableVersion.2]
  rfl

/-- What is read as the namespace is a name that is not taken for the default. -/
theorem isNamespace_of_eq_some {read : Option (List Char)} {text : List Char}
    (areElements : ∀ element ∈ read, IsPathElement element)
    (isText : (read.filter (· ≠ [])).map (fun text =>
      if isUrlDefault text then defaultNamespace else text) = some text) :
    IsPathElement text ∧ (isUrlDefault text → text = defaultNamespace) := by
  rcases Option.map_eq_some_iff.mp isText with ⟨element, isElement, isResolved⟩
  have elementMem := (Option.filter_eq_some_iff.mp isElement).1
  split at isResolved
  next =>
      rw [← isResolved]
      exact ⟨isPathElement_of_all (by decide) (by decide), fun _ => rfl⟩
  next notDefault =>
      rw [← isResolved]
      exact ⟨areElements element elementMem, fun isDefault => absurd isDefault notDefault⟩

/-- A URL without a catalog name has the table where the table version is read. -/
theorem UrlRoundTrips.has_catalogName (roundTrips : UrlRoundTrips netlocIsValid object name) :
    ∃ catalog, name = some catalog ∧ catalog.text ≠ [] := by
  by_contra noCatalog
  have noName : (name.map UrlName.text).filter (· ≠ []) = none := by
    rw [Option.filter_eq_none_iff]
    intro text isText notEmpty
    rcases Option.map_eq_some_iff.mp isText with ⟨catalog, rfl, rfl⟩
    exact noCatalog ⟨catalog, rfl, by simpa using notEmpty⟩
  rcases roundTrips with ⟨url, isUrl, isLocator⟩
  rw [StoredObject.url_eq, StoredObject.urlElements, List.cons_append, List.cons_append,
    List.cons_append, DeltaCatUrl.of_objectUrl_none object.version.namespaceName.noSeparator noName]
    at isUrl
  by_cases isValid : netlocIsValid (withoutUnsafe object.version.namespaceName.text)
  · rw [if_pos isValid] at isUrl
    rcases DeltaCatUrl.resolve_eq_ok isUrl with ⟨isNamespace, isTable, isVersion, -⟩
    have isDefault : object.version.namespaceName.text = urlDefault :=
      Option.some.inj (isLocator.namespaceName.symm.trans isNamespace)
    have isDefaultTable : object.version.tableName.text = urlDefault := by
      rw [isLocator.table, isDefault] at isTable
      exact Option.some.inj isTable
    have isElement : IsPathElement urlDefault :=
      isPathElement_of_all (by decide) (by decide)
    rw [isLocator.tableVersion, isDefaultTable, List.cons_append, List.cons_append,
      List.cons_append, elementsBehind_joinElements_cons isElement] at isVersion
    cases isVersion
  · rw [if_neg isValid] at isUrl
    cases isUrl

theorem UrlRoundTrips.isReadable (roundTrips : UrlRoundTrips netlocIsValid object name) :
    object.IsReadable netlocIsValid name := by
  rcases roundTrips.has_catalogName with ⟨catalog, rfl, isName⟩
  rcases roundTrips with ⟨url, isUrl, isLocator⟩
  rw [StoredObject.url_eq, Option.map_some, DeltaCatUrl.of_objectUrl isName catalog.noSeparator]
    at isUrl
  by_cases isValid : netlocIsValid (withoutUnsafe catalog.text)
  · rw [if_pos isValid] at isUrl
    rcases DeltaCatUrl.resolve_eq_ok isUrl with ⟨isNamespace, isTable, isVersion, isPartition⟩
    have areElements : ∀ index, ∀ element ∈
        (elementsBehind (joinElements object.urlElements))[index]?, IsPathElement element :=
      fun index element isElement => isPathElement_of_mem (List.mem_of_getElem? isElement)
    rw [isLocator.namespaceName] at isNamespace
    rw [isLocator.table] at isTable
    rw [isLocator.tableVersion] at isVersion
    rw [isLocator.partition] at isPartition
    have isVersion := Option.filter_eq_some_iff.mp isVersion.symm
    refine ⟨⟨catalog, rfl, isName, isValid⟩,
      isNamespace_of_eq_some (areElements 0) isNamespace.symm, areElements 1 _ isTable.symm,
      ⟨areElements 2 _ isVersion.1, (of_decide_eq_true isVersion.2).2⟩, ?_⟩
    intro json jsonMem
    apply (StoredObject.isPathElement_valuesJson_iff jsonMem).mp
    apply areElements 4
    rw [← isPartition, jsonMem, Option.map_some]
    exact rfl
  · rw [if_neg isValid] at isUrl
    cases isUrl

end Elements

/-- Exactly the URLs of readable objects with a catalog name are read back. -/
theorem urlRoundTrips_iff (netlocIsValid : List Char → Bool) (object : StoredObject)
    (catalogName : Option UrlName) :
    UrlRoundTrips netlocIsValid object catalogName ↔
      object.IsReadable netlocIsValid catalogName :=
  ⟨fun roundTrips => roundTrips.isReadable, .of_isReadable⟩

/-- A date with slashes as a partition value. -/
def slashedPartition : Partition where
  namespaceName := { text := "sales".toList, noSeparator := noDelimiter_of_all (by decide) }
  tableName := { text := "orders".toList, noSeparator := noDelimiter_of_all (by decide) }
  tableVersion := "1".toList
  streamFormat := .deltacat
  partitionValues := some [.string "2024/01/31".toList]

/-- The partition of a slashed date is not read back with a catalog name, nor without. -/
theorem not_urlRoundTrips_slashed :
    ¬UrlRoundTrips (fun _ => true) (.partition slashedPartition)
        (some { text := "main".toList, noSeparator := noDelimiter_of_all (by decide) }) ∧
      ¬UrlRoundTrips (fun _ => true) (.partition slashedPartition) none := by
  constructor
  · intro roundTrips
    have isPlain := roundTrips.isReadable.partitionValues _ rfl "2024/01/31".toList
      (by simp [slashedPartition, Partition.valuesJson, JsonValue.texts,
        textsOfItems])
    exact isPlain.1 (by decide)
  · intro roundTrips
    rcases roundTrips.isReadable.catalogName with ⟨_, noName, -⟩
    cases noName

end Deltacat.Utils
