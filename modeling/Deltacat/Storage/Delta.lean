import Deltacat.Storage.Partition

/-!
# Deltas

`stage_delta` and `commit_delta` of the main storage implementation. Writing the
data files of a delta is not modelled: their locations are an input of
`stageDelta`. The position of an unordered delta is the first of the random
numbers drawn for it that ordered deltas do not use.
-/

namespace Deltacat.Storage

open Deltacat.Library TransactionM

/-- `UNSIGNED_INT32_MAX_VALUE`: greater positions are left to unordered deltas. -/
def unsignedInt32MaxValue : ℕ := 2 ^ 32 - 1

/-- The random number with which the loop of `commit_delta` ends. -/
structure UnorderedPosition where
  position : ℕ
  isUnordered : unsignedInt32MaxValue < position
  isSigned : position < 2 ^ 63

namespace Locator

/-- `DeltaLocator.of`. -/
def deltaLocatorOf (partitionLocator : Locator) (streamPosition : Option ℕ) : Locator where
  parents := partitionLocator.names
  name := .deltaName streamPosition

end Locator

namespace Metafile

/-- `stream_position` of a delta. -/
def deltaPosition (delta : Metafile) : Option ℕ :=
  match delta.locator.name with
  | .deltaName streamPosition => streamPosition
  | _ => none

/-- `partition_locator` of a delta. -/
def partitionLocator (delta : Metafile) : Option Locator :=
  delta.locator.parents.getLast?.map fun name => ⟨delta.locator.parents.dropLast, name⟩

/-- `is_supported_content_type` of a partition. -/
def isSupportedContentType (partition : Metafile) (contentType : String) : Bool :=
  match partition.contentTypes with
  | none | some [] => true
  | some contentTypes => contentType ∈ contentTypes

end Metafile

/-- `stage_delta`, where `entries` are the files that were written. -/
def stageDelta (partition : Metafile) (deltaType : DeltaType) (contentType : String)
    (properties : List (String × String)) (entries : List String) : Except Error Metafile :=
  if ¬partition.isSupportedContentType contentType then .error .tableValidationError
  else if partition.state = some .deprecated then .error .tableValidationError
  else .ok
    { locator := .deltaLocatorOf partition.locator none
      deltaType := some deltaType
      manifest := some entries
      properties := properties
      previousStreamPosition := if deltaType ≠ .add then partition.streamPosition else none }

/-- The parent partition of a delta, by its identifier if that is known. -/
def getParentPartition (delta : Metafile) : TransactionM (Option Metafile) :=
  match delta.partitionLocator with
  | none => throw .attributeError
  | some partitionLocator =>
      let partition : Metafile := { locator := partitionLocator }
      match partition.streamLocator, nonEmpty partition.partitionId with
      | none, _ => throw .attributeError
      | some streamLocator, some partitionId => getPartitionById streamLocator partitionId
      | some streamLocator, none => getPartition streamLocator partition.partitionValues none

/-- `type`, which is `UPSERT` by default. -/
def resolvedType (delta : Metafile) : DeltaType :=
  delta.deltaType.getD .upsert

/-- The position and the previous position that `commit_delta` gives to a delta. -/
def resolvePosition (delta parentPartition : Metafile) (unordered : UnorderedPosition) :
    TransactionM (ℕ × Option ℕ) :=
  if resolvedType delta ≠ .add then
    let previousStreamPosition := parentPartition.streamPosition.getD 0
    match delta.deltaPosition with
    | some streamPosition =>
        if streamPosition ≤ previousStreamPosition then throw .tableValidationError
        else return (streamPosition, some previousStreamPosition)
    | none => return (previousStreamPosition + 1, some previousStreamPosition)
  else return (unordered.position, delta.previousStreamPosition)

/-- The delta that `commit_delta` creates. -/
def resolvedDelta (delta parentPartition : Metafile) (properties : List (String × String))
    (streamPosition : ℕ) (previousStreamPosition : Option ℕ) : Metafile :=
  { delta with
    locator := .deltaLocatorOf parentPartition.locator (some streamPosition)
    deltaType := some (resolvedType delta)
    properties := if properties = [] then delta.properties else properties
    previousStreamPosition := previousStreamPosition }

/-- The partition after an ordered delta was committed to it. -/
def atPosition (partition : Metafile) (streamPosition : ℕ) : Metafile :=
  { partition with streamPosition := some streamPosition }

theorem atPosition_sameClass (partition : Metafile) (streamPosition : ℕ) :
    partition.metafileClass = (atPosition partition streamPosition).metafileClass :=
  rfl

/-- The write operations of `commit_delta`. -/
def writeDelta (delta parentPartition : Metafile) (streamPosition : ℕ) : TransactionM Unit := do
  stepOr (.create delta) .deltaAlreadyExistsError
  if resolvedType delta ≠ .add then
    let _ ← TransactionM.step
      (.update parentPartition (atPosition parentPartition streamPosition)
        (atPosition_sameClass parentPartition streamPosition))

/-- `commit_delta`; `unordered` is used for the position of an unordered delta. -/
def commitDelta (delta : Metafile) (properties : List (String × String))
    (unordered : UnorderedPosition) : TransactionM Metafile := do
  match ← getParentPartition delta with
  | none => throw .partitionNotFoundError
  | some parentPartition =>
      let (streamPosition, previousStreamPosition) ←
        resolvePosition delta parentPartition unordered
      let delta := resolvedDelta delta parentPartition properties streamPosition
        previousStreamPosition
      writeDelta delta parentPartition streamPosition
      return delta

end Deltacat.Storage
