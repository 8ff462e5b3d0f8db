import Deltacat.Library.Procedure
import Deltacat.Storage.Transaction

/-!
# Partitions

`stage_partition`, `commit_partition` and `delete_partition` of the main storage
implementation, with the lookups that they use. Each of them is a procedure
inside a transaction (`TransactionM`), which the caller seals afterwards: an
exception leaves the transaction and the catalog as they were at that point.

Two inputs stand for what is not computed here. The identifier of a new
partition is the `uuid.uuid4()` that was drawn for it, and `converts` says
whether PyArrow converts a value to a type.
-/

namespace Deltacat.Storage

open Deltacat.Library

/-- A procedure inside a transaction. -/
abbrev TransactionM := EStateM Error ActiveTransaction

namespace TransactionM

/-- `Transaction.step`. -/
def step (operation : TransactionOperation) : TransactionM ActiveTransaction.StepResult :=
  fun active =>
    match active.step operation with
    | (active, .ok result) => .ok result active
    | (active, .error error) => .error error active

/-- `Transaction.seal`. -/
def sealTransaction (now : Option ℕ) : TransactionM Unit := fun active =>
  match active.sealTransaction now with
  | (active, .ok _) => .ok () active
  | (active, .error error) => .error error active

/-- `_latest`. -/
def latest (metafile : Metafile) : TransactionM (Option Metafile) := do
  match ← step (.readLatest metafile none) with
  | .listed listResult => return listResult.head?.join
  | .written _ => return none

end TransactionM

/-- `UNPARTITIONED_SCHEME_ID`. -/
def unpartitionedSchemeId : String := "deadbeef-7277-49a4-a195-fdc8ed235d42"

namespace Locator

/-- `namespace`. -/
def namespaceName (locator : Locator) : Option String :=
  locator.names.findSome? fun
    | .namespaceName value => some value
    | _ => none

/-- `table_name`. -/
def tableName (locator : Locator) : Option String :=
  locator.names.findSome? fun
    | .tableName value => some value
    | _ => none

/-- `table_version`. -/
def tableVersion (locator : Locator) : Option String :=
  locator.names.findSome? fun
    | .tableVersionName tableVersion => some tableVersion
    | _ => none

/-- `stream_id`. -/
def streamId (locator : Locator) : Option String :=
  match locator.name with
  | .streamName streamId _ => streamId
  | _ => none

/-- `TableLocator.at`. -/
def tableLocatorAt (namespaceName tableName : Option String) : Locator where
  parents := (nonEmpty namespaceName).toList.map .namespaceName
  name := .tableName (tableName.getD "")

/-- `TableVersionLocator.at`. -/
def tableVersionLocatorAt (namespaceName tableName tableVersion : Option String) : Locator where
  parents :=
    if (nonEmpty tableName).isSome then (tableLocatorAt namespaceName tableName).names else []
  name := .tableVersionName (tableVersion.getD "")

/-- `StreamLocator.at`. -/
def streamLocatorAt (namespaceName tableName tableVersion streamId streamFormat : Option String) :
    Locator where
  parents :=
    if (nonEmpty tableVersion).isSome then
      (tableVersionLocatorAt namespaceName tableName tableVersion).names
    else []
  name := .streamName streamId streamFormat

/-- `PartitionLocator.of`; no partition values are normalized to `None`. -/
def partitionLocatorOf (streamLocator : Locator) (partitionValues : Option (List String))
    (partitionId : Option String) : Locator where
  parents := streamLocator.names
  name := .partitionName (partitionValues.filter (· ≠ [])) partitionId

end Locator

namespace Metafile

/-- `partition_id`. -/
def partitionId (metafile : Metafile) : Option String :=
  match metafile.locator.name with
  | .partitionName _ partitionId => partitionId
  | _ => none

/-- `partition_values`. -/
def partitionValues (metafile : Metafile) : Option (List String) :=
  match metafile.locator.name with
  | .partitionName partitionValues _ => partitionValues
  | _ => none

/-- `stream_locator`. -/
def streamLocator (partition : Metafile) : Option Locator :=
  partition.locator.parents.getLast?.map fun name => ⟨partition.locator.parents.dropLast, name⟩

/-- `Partition.of`, for the fields that are not always unset. -/
def partitionOf (locator : Locator) (contentTypes : Option (List String))
    (state : Option CommitState) (partitionSchemeId : Option String) : Metafile where
  locator := locator
  contentTypes := contentTypes
  state := state
  partitionSchemeId :=
    match locator.name with
    | .partitionName (some (_ :: _)) _ => partitionSchemeId
    | _ => some unpartitionedSchemeId

end Metafile

open TransactionM

/-- `get_table`. -/
def getTable (namespaceName tableName : Option String) : TransactionM (Option Metafile) :=
  latest { locator := Locator.tableLocatorAt namespaceName tableName }

/-- `get_table_version`. -/
def getTableVersion (namespaceName tableName tableVersion : Option String) :
    TransactionM (Option Metafile) :=
  latest { locator := Locator.tableVersionLocatorAt namespaceName tableName tableVersion }

/-- `_resolve_latest_active_table_version_id`, which does not fail without an active version. -/
def resolveLatestActiveTableVersionId (namespaceName tableName : Option String) :
    TransactionM (Option String) := do
  match ← getTable namespaceName tableName with
  | none => throw .tableNotFoundError
  | some table => return table.latestActiveTableVersion

/-- `get_stream`, of the `deltacat` stream format. -/
def getStream (namespaceName tableName tableVersion : Option String) :
    TransactionM (Option Metafile) := do
  let tableVersion ←
    match nonEmpty tableVersion with
    | some tableVersion => pure (some tableVersion)
    | none => resolveLatestActiveTableVersionId namespaceName tableName
  latest
    { locator := Locator.streamLocatorAt namespaceName tableName tableVersion none (some "deltacat")
      state := some .committed }

/-- `get_partition_by_id`. -/
def getPartitionById (streamLocator : Locator) (partitionId : String) :
    TransactionM (Option Metafile) :=
  latest (.partitionOf (.partitionLocatorOf streamLocator none (some partitionId)) none none none)

/-- The identifier of a stream's partition scheme. -/
def partitionSchemeIdOf (stream : Metafile) : TransactionM (Option String) :=
  match stream.partitionScheme with
  | none => throw .attributeError
  | some partitionScheme => return partitionScheme.id

/-- The stream locator and partition scheme with which `get_partition` looks a partition up. -/
def resolveStream (streamLocator : Locator) (partitionSchemeId : Option String) :
    TransactionM (Locator × Option String) := do
  if nonEmpty partitionSchemeId = none ∨ nonEmpty streamLocator.streamId = none then
    match ← getStream streamLocator.namespaceName streamLocator.tableName
      streamLocator.tableVersion with
    | none => throw .streamNotFoundError
    | some stream => return (stream.locator, ← partitionSchemeIdOf stream)
  else return (streamLocator, partitionSchemeId)

/-- `get_partition`. -/
def getPartition (streamLocator : Locator) (partitionValues : Option (List String))
    (partitionSchemeId : Option String) : TransactionM (Option Metafile) := do
  let (streamLocator, partitionSchemeId) ← resolveStream streamLocator partitionSchemeId
  latest (.partitionOf (.partitionLocatorOf streamLocator partitionValues none) none
    (some .committed) partitionSchemeId)

section Stage

variable (converts : String → String → Bool)

/-- The type that `_validate_partition_values_against_scheme` expects of a partition value. -/
def partitionValueType (schema : List (String × String)) (partitionKey : PartitionKey String) :
    TransactionM String :=
  match partitionKey.transform with
  | none => throw .attributeError
  | some transform =>
      match transform.returnType, partitionKey.key with
      | some returnType, _ => return returnType
      | none, [] => throw .indexError
      | none, name :: _ =>
          match schema.find? (·.1 = name) with
          | none => throw .keyError
          | some field => return field.2

/-- The loop of `_validate_partition_values_against_scheme`. -/
def validatePartitionValuesFrom (schema : List (String × String)) :
    List (PartitionKey String × String) → TransactionM Unit
  | [] => return ()
  | (partitionKey, partitionValue) :: rest => do
      let fieldType ← partitionValueType schema partitionKey
      if converts partitionValue fieldType then validatePartitionValuesFrom schema rest
      else throw .tableValidationError

/-- `_validate_partition_values_against_scheme`. -/
def validatePartitionValuesAgainstScheme (partitionValues : List String)
    (partitionScheme : PartitionScheme String) (schema : Option (List (String × String))) :
    TransactionM Unit :=
  match partitionValues, schema, partitionScheme.keys with
  | [], _, _ => throw .tableValidationError
  | _, none, _ => throw .tableValidationError
  | _, some _, none => throw .typeError
  | partitionValues, some schema, some keys =>
      if partitionValues.length ≠ keys.length then throw .tableValidationError
      else validatePartitionValuesFrom converts schema (keys.zip partitionValues)

/-- The checks of `stage_partition`; returns the partition scheme of the new partition. -/
def validateStagedPartition (stream tableVersion : Metafile) (partitionValues : List String)
    (partitionSchemeId : Option String) : TransactionM (Option String) := do
  let partitionSchemeId ←
    match partitionValues, partitionSchemeId with
    | [], _ => pure (some unpartitionedSchemeId)
    | _, none => partitionSchemeIdOf stream
    | _, some partitionSchemeId => pure (some partitionSchemeId)
  match tableVersion.partitionSchemes.find? (·.id = partitionSchemeId) with
  | none => throw .tableValidationError
  | some partitionScheme =>
      let streamSchemeId ← partitionSchemeIdOf stream
      if tableVersion.partitionSchemes.all (·.id ≠ streamSchemeId) then
        throw .tableValidationError
      else if partitionValues ≠ [] then
        if partitionSchemeId = some unpartitionedSchemeId then throw .tableValidationError
        else
          validatePartitionValuesAgainstScheme converts partitionValues partitionScheme
            tableVersion.schema
          return partitionSchemeId
      else return partitionSchemeId

/-- `transaction.step`, with the exception that tells what exists already. -/
def stepOr (operation : TransactionOperation) (alreadyExists : Error) : TransactionM Unit :=
  tryCatch (discard <| TransactionM.step operation) fun
    | .objectAlreadyExistsError => throw alreadyExists
    | error => throw error

/-- The partition that `stage_partition` creates. -/
def newPartition (streamLocator : Locator) (partitionValues : Option (List String))
    (partitionId : String) (contentTypes : Option (List String))
    (partitionSchemeId previousPartitionId : Option String) : Metafile :=
  { Metafile.partitionOf (.partitionLocatorOf streamLocator partitionValues (some partitionId))
      contentTypes (some .staged) partitionSchemeId with
    previousPartitionId := previousPartitionId }

/-- `stage_partition`; `partitionId` is the identifier drawn for the new partition. -/
def stagePartition (stream : Metafile) (partitionValues : Option (List String))
    (partitionSchemeId : Option String) (partitionId : String) : TransactionM Metafile := do
  match ← getTableVersion stream.locator.namespaceName stream.locator.tableName
    stream.locator.tableVersion with
  | none => throw .tableVersionNotFoundError
  | some tableVersion =>
      let partitionSchemeId ← validateStagedPartition converts stream tableVersion
        (partitionValues.getD []) partitionSchemeId
      let prevPartition ← getPartition stream.locator partitionValues partitionSchemeId
      let prevPartitionId := prevPartition.bind (·.partitionId)
      if prevPartitionId = some partitionId then throw .tableValidationError
      else
        let partition := newPartition stream.locator partitionValues partitionId
          tableVersion.contentTypes partitionSchemeId prevPartitionId
        stepOr (.create partition) .partitionAlreadyExistsError
        return partition

end Stage

/-- The staged partition that `commit_partition` commits. -/
def getStagedPartition (streamLocator : Locator) (partitionId : String) :
    TransactionM Metafile := do
  match ← getPartitionById streamLocator partitionId with
  | none => throw .partitionNotFoundError
  | some stagedPartition =>
      if stagedPartition.state ≠ some .staged then throw .tableValidationError
      else return stagedPartition

/--
The committed partition that `commit_partition` replaces, if any. Note that it
is the argument of the call that is consulted here, and not the staged partition
that was read before.
-/
def getPreviousPartition (partition : Metafile) (streamLocator : Locator) :
    TransactionM (Option Metafile) := do
  match partition.previousPartitionId with
  | none => return none
  | some previousPartitionId =>
      match ← getPartition streamLocator partition.partitionValues partition.partitionSchemeId with
      | none => return none
      | some committedPartition =>
          if committedPartition.partitionId ≠ some previousPartitionId then
            throw .concurrentModificationError
          else if committedPartition.partitionId = partition.partitionId then
            throw .tableValidationError
          else return some committedPartition

/-- The committed partition that `commit_partition` makes of the staged one. -/
def committedFrom (partition stagedPartition : Metafile) : Metafile :=
  { stagedPartition with
    state := some .committed
    compactionRoundCompletionInfo :=
      partition.compactionRoundCompletionInfo <|> stagedPartition.compactionRoundCompletionInfo }

/-- The write operations of `commit_partition`. -/
def writeCommittedPartition (stagedPartition committedPartition : Metafile)
    (sameClass : stagedPartition.metafileClass = committedPartition.metafileClass)
    (prevPartition : Option Metafile) : TransactionM Unit := do
  match prevPartition with
  | none =>
      let _ ← TransactionM.step (.update stagedPartition committedPartition sameClass)
  | some prevPartition =>
      let _ ← TransactionM.step (.replace stagedPartition committedPartition sameClass)
      if prevSameClass : prevPartition.metafileClass = committedPartition.metafileClass then
        let _ ← TransactionM.step (.replace prevPartition committedPartition prevSameClass)
      else throw .valueError

/-- `commit_partition`. -/
def commitPartition (partition : Metafile) (previousPartition : Option Metafile) :
    TransactionM Metafile := do
  if previousPartition.isSome then throw .notImplementedError
  else
    match nonEmpty partition.partitionId, partition.streamLocator with
    | none, _ | _, none => throw .valueError
    | some partitionId, some streamLocator =>
        let stagedPartition ← getStagedPartition streamLocator partitionId
        let prevPartition ← getPreviousPartition partition streamLocator
        let committedPartition := committedFrom partition stagedPartition
        writeCommittedPartition stagedPartition committedPartition rfl prevPartition
        return committedPartition

/-- The partition that `delete_partition` writes. -/
def deprecated (partition : Metafile) : Metafile :=
  { partition with state := some .deprecated }

/-- `delete_partition`. -/
def deletePartition (streamLocator : Locator) (partitionValues : Option (List String))
    (partitionSchemeId : Option String) : TransactionM Unit := do
  match ← getPartition streamLocator partitionValues partitionSchemeId with
  | none => throw .partitionNotFoundError
  | some partition =>
      let _ ← TransactionM.step (.delete (deprecated partition))

end Deltacat.Storage
