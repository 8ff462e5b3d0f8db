import Deltacat.Library.Decimal
import Deltacat.Storage.Partition

/-!
# Table versions

`create_table_version` and `update_table_version` of the main storage
implementation. Both keep two pointers on the table: the version that was created
last, and the latest version that is active.

Which characters are word characters and decimal digits is given by
`CharacterClasses`, as Python takes it from the Unicode database. The identifiers
of a new table and of a new stream are those that were drawn for them. The values
of table properties are strings; `readerTypes` reads a list of dataset types from
one.
-/

namespace Deltacat.Storage

open Deltacat.Library

/-- The character classes `\w` and `\d`, with the values of the digits. -/
structure CharacterClasses where
  isWord : Char → Bool
  digit : Char → Option ℕ
  digit_ascii : ∀ char, char.isDigit → digit char = some (char.toNat - '0'.toNat)
  digit_dot : digit '.' = none
  digit_newline : digit '\n' = none
  word_dot : isWord '.' = false

section Versions

variable (characters : CharacterClasses)

/-- The part of a version up to the first dot, if there is one, and the rest. -/
def splitAtDot (text : List Char) : Option (List Char) × List Char :=
  match text.dropWhile (· ≠ '.') with
  | [] => (none, text)
  | dot :: number => (some (text.takeWhile (· ≠ '.') ++ [dot]), number)

/-- The end of a line matches before a line break, too. -/
def withoutNewline (text : List Char) : List Char :=
  if text.getLast? = some '\n' then text.dropLast else text

/-- `int` of a text of digits. -/
def numberOf (digits : List Char) : Option ℕ :=
  if digits = [] then none
  else (digits.mapM characters.digit).map (·.foldl (fun value digit => 10 * value + digit) 0)

/-- The groups of the pattern `^(\w*\.)?(\d+)$`. -/
def matchTableVersion (text : List Char) : Option (Option (List Char) × ℕ) :=
  let (stem, number) := splitAtDot text
  if (stem.getD []).dropLast.all characters.isWord then
    (numberOf characters (withoutNewline number)).map fun value => (stem, value)
  else none

/-- `parse_table_version`. -/
def parseTableVersion (tableVersion : String) : Except Error (Option (List Char) × ℕ) :=
  if tableVersion = "" then .error .valueError
  else if 1024 < tableVersion.length then .error .valueError
  else
    match matchTableVersion characters tableVersion.toList with
    | none => .error .valueError
    | some parsed => .ok parsed

/-- A version in its canonical form. -/
def formatTableVersion (parsed : Option (List Char) × ℕ) : String :=
  String.ofList (parsed.1.getD [] ++ Nat.toDigits 10 parsed.2)

/-- The setter of `table_version` of a locator, which restates a version in its canonical form. -/
def restateTableVersion (tableVersion : String) : Except Error String :=
  formatTableVersion <$> parseTableVersion characters tableVersion

/-- `next_version`. -/
def nextVersion (previousVersion : Option String) : Except Error String :=
  match previousVersion with
  | none => .ok "1"
  | some previousVersion => do
      let (stem, number) ← parseTableVersion characters previousVersion
      return formatTableVersion (stem, number + 1)

/-- `DEFAULT_TABLE_VERSION`. -/
def defaultTableVersion : String := "1"

/-- The version that `create_table_version` creates, as it was given or generated. -/
def newTableVersion (prevTable : Option Metafile) (tableVersion : Option String) :
    Except Error String :=
  match prevTable, nonEmpty tableVersion with
  | none, tableVersion => .ok (tableVersion.getD defaultTableVersion)
  | some prevTable, none => nextVersion characters prevTable.latestTableVersion
  | some prevTable, some tableVersion => do
      let expected ← nextVersion characters prevTable.latestTableVersion
      let (_, versionNumber) ← parseTableVersion characters tableVersion
      let (_, expectedNumber) ← parseTableVersion characters expected
      if versionNumber ≠ expectedNumber then .error .tableVersionAlreadyExistsError
      else return tableVersion

end Versions

/-- `UNPARTITIONED_SCHEME`. -/
def unpartitionedScheme : PartitionScheme String where
  id := some unpartitionedSchemeId
  keys := none
  name := some "unpartitioned_scheme"

/-- `UNSORTED_SCHEME`. -/
def unsortedScheme : SortScheme String where
  id := some "deadbeef-7277-49a4-a195-fdc8ed235d42"
  keys := none
  name := some "unsorted_scheme"

/-- The check of one list of keys by `_validate_schemes_against_schema`. -/
def validateKeys (fieldNames : List String) (keys : List (Option (List String))) :
    Except Error Unit :=
  keys.forM fun
    | none => .error .typeError
    | some [] => .error .indexError
    | some (name :: _) => if name ∈ fieldNames then .ok () else .error .schemaValidationError

/-- `_validate_schemes_against_schema`. -/
def validateSchemesAgainstSchema (schema : Option (List (String × String)))
    (partitionScheme : Option (PartitionScheme String)) (sortScheme : Option (SortScheme String)) :
    Except Error Unit :=
  match schema with
  | none => .ok ()
  | some schema => do
      let fieldNames := schema.map Prod.fst
      validateKeys fieldNames (((partitionScheme.bind (·.keys)).getD []).map (some ·.key))
      validateKeys fieldNames (((sortScheme.bind (·.keys)).getD []).map (·.key))

/--
The history of schemas or schemes after one was given: it grows unless the given
one is equivalent to the current one, and must not repeat an identifier.
-/
def revisedHistory {Item Id : Type} [DecidableEq Id] (id : Item → Id) (given : Option Item)
    (isEquivalent : Item → Except Error Bool) (history : Option (List Item)) :
    Except Error (Option (List Item)) :=
  match given with
  | none => .ok history
  | some given => do
      if ← isEquivalent given then return history
      else
        match history with
        | none => .error .typeError
        | some history =>
            if id given ∈ history.map id then .error .tableValidationError
            else return some (history ++ [given])

/-- `SUPPORTED_READER_TYPES`. -/
def supportedReaderTypesProperty : String := "supported_reader_types"

/-- The values of `DatasetType`. -/
def datasetTypes : List String :=
  ["numpy", "pandas", "polars", "pyarrow", "pyarrow_parquet", "daft", "ray_dataset"]

abbrev Properties := List (String × String)

/-- The arguments of `create_table_version`. -/
structure TableVersionCreation where
  namespaceName : String
  tableName : String
  tableVersion : Option String := none
  lifecycleState : Option LifecycleState := some .created
  schema : Option (ℕ × List (String × String)) := none
  partitionScheme : Option (PartitionScheme String) := none
  sortKeys : Option (SortScheme String) := none
  tableVersionDescription : Option String := none
  tableVersionProperties : Option Properties := none
  tableDescription : Option String := none
  tableProperties : Option Properties := none
  supportedContentTypes : Option (List String) := none

/-- The arguments of `update_table_version`. -/
structure TableVersionUpdate where
  namespaceName : String
  tableName : String
  tableVersion : String
  lifecycleState : Option LifecycleState := none
  schema : Option (ℕ × List (String × String)) := none
  description : Option String := none
  properties : Option Properties := none
  partitionScheme : Option (PartitionScheme String) := none
  sortKeys : Option (SortScheme String) := none

namespace TransactionM

/-- `_exists`. -/
def isThere (metafile : Metafile) : TransactionM Bool := do
  match ← step (.readExists metafile none) with
  | .listed listResult => return !listResult.isEmpty
  | .written _ => return false

end TransactionM

open TransactionM

/-- `namespace_exists`. -/
def namespaceExists (namespaceName : String) : TransactionM Bool :=
  isThere { locator := ⟨[], .namespaceName namespaceName⟩ }

namespace TableVersionCreation

/-- The table that a call creates or updates; `tableId` is the identifier of a new table. -/
def newTable (request : TableVersionCreation) (tableId : String) (prevTable : Option Metafile)
    (tableVersion : String) : Metafile :=
  let table : Metafile := prevTable.getD
    { locator := .tableLocatorAt (some request.namespaceName) (some request.tableName)
      uuid := some tableId }
  { table with
    description := request.tableDescription <|> table.description
    properties := request.tableProperties.getD table.properties
    latestTableVersion := some tableVersion
    latestActiveTableVersion :=
      if request.lifecycleState = some .active then some tableVersion else none }

/-- The table version that a call creates. -/
def newVersion (request : TableVersionCreation) (prevTable : Option Metafile)
    (tableVersion : String) : Metafile where
  locator := .tableVersionLocatorAt (some request.namespaceName) (some request.tableName)
    (some tableVersion)
  schema := request.schema.map Prod.snd
  partitionScheme := some (request.partitionScheme.getD unpartitionedScheme)
  description := request.tableVersionDescription
  properties := request.tableVersionProperties.getD []
  contentTypes := request.supportedContentTypes
  sortScheme := some (request.sortKeys.getD unsortedScheme)
  lifecycleState := request.lifecycleState
  schemas := request.schema.map fun schema => [schema]
  partitionSchemes := [request.partitionScheme.getD unpartitionedScheme]
  sortSchemes := [request.sortKeys.getD unsortedScheme]
  previousTableVersion := prevTable.bind (·.latestTableVersion)

/-- The stream of the table version that a call creates. -/
def newStream (request : TableVersionCreation) (tableVersion streamId : String) : Metafile where
  locator := .streamLocatorAt (some request.namespaceName) (some request.tableName)
    (some tableVersion) (some streamId) (some "deltacat")
  partitionScheme := some (request.partitionScheme.getD unpartitionedScheme)
  state := some .committed

end TableVersionCreation

/-- The write of the table by `create_table_version`. -/
def writeTable (prevTable : Option Metafile) (newTable : Metafile) : TransactionM Unit :=
  match prevTable with
  | none => stepOr (.create newTable) .tableAlreadyExistsError
  | some prevTable =>
      if sameClass : prevTable.metafileClass = newTable.metafileClass then
        stepOr (.update prevTable newTable sameClass) .tableAlreadyExistsError
      else throw .valueError

section Calls

variable (characters : CharacterClasses) (readerTypes : String → Except Error (List String))

/-- `create_table_version`. -/
def createTableVersion (request : TableVersionCreation) (tableId streamId : String) :
    TransactionM (Metafile × Metafile × Metafile) := do
  if ← namespaceExists request.namespaceName then
    ofExcept (validateSchemesAgainstSchema (request.schema.map Prod.snd) request.partitionScheme
      request.sortKeys)
    let prevTable ← getTable (some request.namespaceName) (some request.tableName)
    let tableVersion ← ofExcept (newTableVersion characters prevTable request.tableVersion)
    let newTable := request.newTable tableId prevTable tableVersion
    let restated ← ofExcept (restateTableVersion characters tableVersion)
    let newVersion := request.newVersion prevTable restated
    let newStream := request.newStream restated streamId
    writeTable prevTable newTable
    stepOr (.create newVersion) .tableVersionAlreadyExistsError
    stepOr (.create newStream) .streamAlreadyExistsError
    return (newTable, newVersion, newStream)
  else throw .namespaceNotFoundError

/-- The dataset types that can read a table version, which are all of them by default. -/
def supportedReaderTypes (properties : Properties) : Except Error (List String) :=
  match properties.find? (·.1 = supportedReaderTypesProperty) with
  | none => .ok datasetTypes
  | some property => readerTypes property.2

/-- The check of the dataset types, of which none may be added. -/
def validateReaderTypes (newProperties oldProperties : Properties) : Except Error Unit := do
  let newTypes ← supportedReaderTypes readerTypes newProperties
  if newTypes ≠ [] then
    let oldTypes ← supportedReaderTypes readerTypes oldProperties
    if ∀ datasetType ∈ newTypes, datasetType ∈ oldTypes then return ()
    else .error .tableValidationError

/-- The table version that `update_table_version` writes. -/
def revisedTableVersion (request : TableVersionUpdate) (old : Metafile) :
    Except Error Metafile := do
  validateSchemesAgainstSchema ((request.schema.map Prod.snd) <|> old.schema)
    request.partitionScheme request.sortKeys
  let schemas ← revisedHistory Prod.fst request.schema
    (fun schema => .ok (some schema.2 = old.schema)) old.schemas
  let properties := request.properties.getD old.properties
  validateReaderTypes readerTypes properties old.properties
  let partitionSchemes ← revisedHistory (·.id) request.partitionScheme
    (fun scheme => old.partitionScheme.elim (.ok false) (scheme.equivalentTo · true))
    (some old.partitionSchemes)
  let sortSchemes ← revisedHistory (·.id) request.sortKeys
    (fun scheme => old.sortScheme.elim (.ok false) (scheme.equivalentTo · true))
    (some old.sortSchemes)
  return { old with
    lifecycleState := request.lifecycleState <|> old.lifecycleState
    schema := (request.schema.map Prod.snd) <|> old.schema
    schemas := schemas
    description := request.description <|> old.description
    properties := properties
    partitionScheme := request.partitionScheme <|> old.partitionScheme
    partitionSchemes := partitionSchemes.getD []
    sortScheme := request.sortKeys <|> old.sortScheme
    sortSchemes := sortSchemes.getD [] }

/-- Whether an activated version becomes the latest active one. -/
def becomesLatestActive (table : Metafile) (tableVersion : String) : Except Error Bool := do
  let oldNumber ←
    match nonEmpty table.latestActiveTableVersion with
    | none => pure none
    | some latest => (fun parsed => some parsed.2) <$> parseTableVersion characters latest
  let (_, newNumber) ← parseTableVersion characters tableVersion
  return oldNumber.all (· < newNumber)

/-- The table with another latest active version. -/
def withLatestActive (table : Metafile) (tableVersion : String) : Metafile :=
  { table with latestActiveTableVersion := some tableVersion }

theorem withLatestActive_sameClass (table : Metafile) (request : TableVersionUpdate) :
    table.metafileClass = (withLatestActive table request.tableVersion).metafileClass :=
  rfl

/-- The write of the table by `update_table_version`, if a version is activated. -/
def activateTableVersion (request : TableVersionUpdate) (oldVersion : Metafile)
    (oldTable : Option Metafile) : TransactionM (Option Metafile) := do
  if request.lifecycleState = some .active ∧ oldVersion.lifecycleState ≠ some .active then
    match oldTable with
    | none => throw .attributeError
    | some oldTable =>
        if ← ofExcept (becomesLatestActive characters oldTable request.tableVersion) then
          let newTable := withLatestActive oldTable request.tableVersion
          let _ ← TransactionM.step
            (.update oldTable newTable (withLatestActive_sameClass oldTable request))
          return some newTable
        else return none
  else return none

/-- The stream with another partition scheme. -/
def withPartitionScheme (stream : Metafile) (partitionScheme : PartitionScheme String) : Metafile :=
  { stream with partitionScheme := some partitionScheme }

theorem withPartitionScheme_sameClass (stream : Metafile)
    (partitionScheme : PartitionScheme String) :
    stream.metafileClass = (withPartitionScheme stream partitionScheme).metafileClass :=
  rfl

/-- The write of the stream by `update_table_version`, if a partition scheme is given. -/
def updateStreamScheme (request : TableVersionUpdate) (tableVersion : String) :
    TransactionM (Option Metafile) := do
  match request.partitionScheme with
  | none => return none
  | some partitionScheme =>
      match ← getStream (some request.namespaceName) (some request.tableName)
        (some tableVersion) with
      | none => throw .attributeError
      | some oldStream =>
          let newStream := withPartitionScheme oldStream partitionScheme
          let _ ← TransactionM.step
            (.update oldStream newStream (withPartitionScheme_sameClass oldStream partitionScheme))
          return some newStream

/-- `update_table_version`. -/
def updateTableVersion (request : TableVersionUpdate) :
    TransactionM (Option Metafile × Metafile × Option Metafile) := do
  let restated ← ofExcept (restateTableVersion characters request.tableVersion)
  match ← getTableVersion (some request.namespaceName) (some request.tableName)
    (some restated) with
  | none => throw .tableVersionNotFoundError
  | some oldVersion =>
      let newVersion ← ofExcept (revisedTableVersion readerTypes request oldVersion)
      let oldTable ← getTable (some request.namespaceName) (some request.tableName)
      let newTable ← activateTableVersion characters request oldVersion oldTable
      if sameClass : oldVersion.metafileClass = newVersion.metafileClass then
        stepOr (.update oldVersion newVersion sameClass) .tableVersionAlreadyExistsError
        let newStream ← updateStreamScheme request restated
        return (newTable, newVersion, newStream)
      else throw .valueError

end Calls

end Deltacat.Storage
