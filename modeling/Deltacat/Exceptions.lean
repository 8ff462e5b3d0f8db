/-!
# Exceptions

The exception classes that the modelled functions raise. Messages are built for
people and no function of the program inspects one, so a raised exception is
represented by its class.
-/

namespace Deltacat

/-- The class of a raised exception. -/
inductive Error
  /-- `ValueError`. -/
  | valueError
  /-- `RuntimeError`. -/
  | runtimeError
  /-- `TimeoutError`. -/
  | timeoutError
  /-- `FileNotFoundError`. -/
  | fileNotFoundError
  /-- `OSError`. -/
  | osError
  /-- `ObjectNotFoundError`. -/
  | objectNotFoundError
  /-- `ObjectDeletedError`. -/
  | objectDeletedError
  /-- `ObjectAlreadyExistsError`. -/
  | objectAlreadyExistsError
  /-- `ConcurrentModificationError`. -/
  | concurrentModificationError
  /-- `TableValidationError`. -/
  | tableValidationError
  /-- `SchemaCompatibilityError`. -/
  | schemaCompatibilityError
  /-- `SchemaValidationError`. -/
  | schemaValidationError
  /-- `NamespaceNotFoundError`. -/
  | namespaceNotFoundError
  /-- `TableNotFoundError`. -/
  | tableNotFoundError
  /-- `TableAlreadyExistsError`. -/
  | tableAlreadyExistsError
  /-- `TableVersionNotFoundError`. -/
  | tableVersionNotFoundError
  /-- `TableVersionAlreadyExistsError`. -/
  | tableVersionAlreadyExistsError
  /-- `StreamNotFoundError`. -/
  | streamNotFoundError
  /-- `StreamAlreadyExistsError`. -/
  | streamAlreadyExistsError
  /-- `PartitionNotFoundError`. -/
  | partitionNotFoundError
  /-- `PartitionAlreadyExistsError`. -/
  | partitionAlreadyExistsError
  /-- `DeltaAlreadyExistsError`. -/
  | deltaAlreadyExistsError
  /-- `NotImplementedError`. -/
  | notImplementedError
  /-- `AttributeError`. -/
  | attributeError
  /-- `TypeError`. -/
  | typeError
  /-- `KeyError`. -/
  | keyError
  /-- `IndexError`. -/
  | indexError
  /-- `AssertionError`. -/
  | assertionError
  /-- `ArrowInvalid`. -/
  | arrowInvalid
  /-- `UnboundLocalError`. -/
  | unboundLocalError
  deriving DecidableEq, Repr

end Deltacat
