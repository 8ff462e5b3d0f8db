import Deltacat.Storage.TableVersion

/-!
# Streams

`stage_stream` and `commit_stream` of the main storage implementation. A stream
is staged next to the committed stream of its format, and remembers which stream
that was. The identifier of a new stream is the `uuid.uuid4()` that was drawn for
it. Table versions are stored in their canonical form, so that reading a locator
does not restate them.
-/

namespace Deltacat.Storage

open Deltacat.Library TransactionM

namespace Locator

/-- `format` of a stream locator. -/
def format (locator : Locator) : Option String :=
  match locator.name with
  | .streamName _ format => format
  | _ => none

/-- `StreamLocator.of`. -/
def streamLocatorOf (tableVersionLocator : Locator) (streamId streamFormat : Option String) :
    Locator where
  parents := tableVersionLocator.names
  name := .streamName streamId streamFormat

end Locator

namespace Metafile

/-- `table_version_locator` of a stream. -/
def tableVersionLocator (stream : Metafile) : Option Locator :=
  stream.locator.parents.getLast?.map fun name => ⟨stream.locator.parents.dropLast, name⟩

end Metafile

/-- `get_stream_by_id`. -/
def getStreamById (tableVersionLocator : Locator) (streamId : String) :
    TransactionM (Option Metafile) :=
  latest { locator := .streamLocatorOf tableVersionLocator (some streamId) none }

/-- `get_stream`, of the given stream format. -/
def getStreamOfFormat (namespaceName tableName tableVersion streamFormat : Option String) :
    TransactionM (Option Metafile) := do
  let tableVersion ←
    match nonEmpty tableVersion with
    | some tableVersion => pure (some tableVersion)
    | none => resolveLatestActiveTableVersionId namespaceName tableName
  latest
    { locator := Locator.streamLocatorAt namespaceName tableName tableVersion none streamFormat
      state := some .committed }

section Stage

variable (characters : CharacterClasses)

/-- `_resolve_latest_active_table_version_id`, which fails without an active version. -/
def resolveActiveTableVersionId (namespaceName tableName : Option String) :
    TransactionM String := do
  match nonEmpty (← resolveLatestActiveTableVersionId namespaceName tableName) with
  | none => throw .tableVersionNotFoundError
  | some tableVersion => return tableVersion

/-- The stream that `stage_stream` creates. -/
def newStagedStream (namespaceName tableName : Option String) (tableVersion : String)
    (tableVersionMeta : Metafile) (streamFormat : Option String) (streamId : String)
    (prevStream : Option Metafile) : Metafile where
  locator := .streamLocatorAt namespaceName tableName (some tableVersion) (some streamId)
    (some ((nonEmpty streamFormat).getD "deltacat"))
  partitionScheme := tableVersionMeta.partitionScheme
  state := some .staged
  previousStreamId := prevStream.bind (·.locator.streamId)

/-- `stage_stream`; `streamId` is the identifier drawn for the new stream. -/
def stageStream (namespaceName tableName tableVersion streamFormat : Option String)
    (streamId : String) : TransactionM Metafile := do
  let tableVersion ←
    match nonEmpty tableVersion with
    | some tableVersion => pure tableVersion
    | none => resolveActiveTableVersionId namespaceName tableName
  let restated ← ofExcept (restateTableVersion characters tableVersion)
  match ← getTableVersion namespaceName tableName (some restated) with
  | none => throw .tableVersionNotFoundError
  | some tableVersionMeta =>
      let prevStream ← getStreamOfFormat namespaceName tableName (some restated)
        (some ((nonEmpty streamFormat).getD "deltacat"))
      if prevStream.bind (·.locator.streamId) = some streamId then throw .tableValidationError
      else
        let stream := newStagedStream namespaceName tableName restated tableVersionMeta
          streamFormat streamId prevStream
        stepOr (.create stream) .streamAlreadyExistsError
        return stream

end Stage

/-- The staged stream that `commit_stream` commits. -/
def getStagedStream (tableVersionLocator : Locator) (streamId : String) :
    TransactionM Metafile := do
  match ← getStreamById tableVersionLocator streamId with
  | none => throw .streamNotFoundError
  | some prevStagedStream =>
      if prevStagedStream.state ≠ some .staged then throw .tableValidationError
      else return prevStagedStream

/-- The committed stream of the staged stream's table version and format. -/
def getPrevCommittedStream (stagedStream : Metafile) : TransactionM (Option Metafile) :=
  getStreamOfFormat stagedStream.locator.namespaceName stagedStream.locator.tableName
    stagedStream.locator.tableVersion stagedStream.locator.format

/-- The committed stream that `commit_stream` makes of the staged one. -/
def committedStreamOf (stagedStream : Metafile) : Metafile :=
  { stagedStream with state := some .committed }

theorem committedStreamOf_sameClass (stagedStream : Metafile) :
    stagedStream.metafileClass = (committedStreamOf stagedStream).metafileClass :=
  rfl

/-- The last part of `commit_stream`, if there is a previously committed stream. -/
def replaceCommittedStream (prevCommittedStream stream : Metafile) : TransactionM Unit := do
  if prevCommittedStream.locator.streamId ≠ stream.previousStreamId then
    throw .concurrentModificationError
  else if prevCommittedStream.locator.streamId = stream.locator.streamId then
    throw .tableValidationError
  else if sameClass : prevCommittedStream.metafileClass = stream.metafileClass then
    let _ ← TransactionM.step (.replace prevCommittedStream stream sameClass)
  else throw .valueError

/--
The write operations of `commit_stream`. Note that the committed stream is only
compared with the one that was there at staging after the first of them.
-/
def writeCommittedStream (stagedStream : Metafile) (prevCommittedStream : Option Metafile) :
    TransactionM Unit := do
  match prevCommittedStream with
  | none =>
      let _ ← TransactionM.step (.update stagedStream (committedStreamOf stagedStream)
        (committedStreamOf_sameClass stagedStream))
  | some prevCommittedStream =>
      let _ ← TransactionM.step (.replace stagedStream (committedStreamOf stagedStream)
        (committedStreamOf_sameClass stagedStream))
      replaceCommittedStream prevCommittedStream (committedStreamOf stagedStream)

/-- `commit_stream`. -/
def commitStream (stream : Metafile) : TransactionM Metafile := do
  match nonEmpty stream.locator.streamId, stream.tableVersionLocator with
  | none, _ | _, none => throw .valueError
  | some streamId, some tableVersionLocator =>
      let stagedStream ← getStagedStream tableVersionLocator streamId
      let prevCommittedStream ← getPrevCommittedStream stagedStream
      writeCommittedStream stagedStream prevCommittedStream
      return committedStreamOf stagedStream

end Deltacat.Storage
