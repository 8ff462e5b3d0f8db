import Deltacat.Storage.Revision
import Deltacat.Storage.Schemes
import Mathlib.Tactic

/-!
# Locators, metafiles and the catalog

A catalog object is stored under the identifiers of its ancestors. Its own
directory holds the revisions of its metafile. An object whose name may change
also has a name mapping: a revision directory under the parent, named by a
digest of the object's name, whose files carry the object's identifier. This
file models the directory tree and the reading half of `Metafile`: resolving
names to identifiers, reading the latest revision of an object, and listing the
children and the siblings of an object.

Three things are represented rather than copied. The digest that names a
mapping directory is the name itself, since equal digests are meant to imply
equal names. Partition values are given by their string representations, which
identify them (see `PartitionLocator.of`). A locator is the list of the names
on its path from the catalog root.
-/

namespace Deltacat.Storage

open Deltacat.Library MetafileRevisionInfo

/-- A string that Python treats as true. -/
def nonEmpty (text : Option String) : Option String :=
  text.filter (· ≠ "")

/-- The locator names and locator alias names of the metafile classes. -/
inductive LocatorName
  | namespaceName (value : String)
  | tableName (value : String)
  | tableVersionName (tableVersion : String)
  | streamName (streamId : Option String) (format : Option String)
  | streamAliasName (format : Option String)
  | partitionName (partitionValues : Option (List String)) (partitionId : Option String)
  | partitionAliasName (partitionValues : Option (List String)) (partitionSchemeId : Option String)
  | deltaName (streamPosition : Option ℕ)
  deriving DecidableEq

namespace LocatorName

/-- `immutable_id`: the identifier of an object that cannot be renamed. -/
def immutableId : LocatorName → Option String
  | namespaceName _ | tableName _ | streamAliasName _ | partitionAliasName _ _ => none
  | tableVersionName tableVersion => nonEmpty (some tableVersion)
  | streamName streamId _ => nonEmpty streamId
  | partitionName _ partitionId => nonEmpty partitionId
  | deltaName none => some "None"
  | deltaName (some streamPosition) => some (toString streamPosition)

/-- `exists`: there is an immutable identifier, or every part of the name is there. -/
def isDefined (name : LocatorName) : Bool :=
  name.immutableId.isSome ||
    match name with
    | namespaceName value | tableName value => value ≠ ""
    | streamAliasName format => (nonEmpty format).isSome
    | partitionAliasName _ partitionSchemeId => (nonEmpty partitionSchemeId).isSome
    | _ => false

end LocatorName

/-- A locator: the names of the ancestors, from the root on, and the object's name. -/
structure Locator where
  parents : List LocatorName
  name : LocatorName
  deriving DecidableEq

namespace Locator

def names (locator : Locator) : List LocatorName :=
  locator.parents ++ [locator.name]

end Locator

inductive CommitState
  | staged
  | committed
  | deprecated
  deriving DecidableEq

inductive DeltaType
  | add
  | append
  | upsert
  | delete
  deriving DecidableEq

inductive LifecycleState
  | created
  | unreleased
  | active
  | deprecated
  | beta
  | deleted
  deriving DecidableEq

/--
A metafile of any class. The class is that of its locator's name, and the fields
that belong to other classes are unset. The identifier `uuid` is used for the
classes whose names may change; it is generated when it is first needed, and the
metafiles that operations write are given with their identifiers. A schema is
given by the types of its fields, with its identifier where it is listed among
others, a manifest by the locations of its entries, and the fields of schemes by
their names.
-/
structure Metafile where
  locator : Locator
  uuid : Option String := none
  ancestorIds : List String := []
  state : Option CommitState := none
  latestTableVersion : Option String := none
  latestActiveTableVersion : Option String := none
  lifecycleState : Option LifecycleState := none
  previousTableVersion : Option String := none
  description : Option String := none
  schemas : Option (List (ℕ × List (String × String))) := none
  sortScheme : Option (SortScheme String) := none
  sortSchemes : List (SortScheme String) := []
  schema : Option (List (String × String)) := none
  partitionSchemes : List (PartitionScheme String) := []
  contentTypes : Option (List String) := none
  partitionScheme : Option (PartitionScheme String) := none
  previousStreamId : Option String := none
  partitionSchemeId : Option String := none
  previousPartitionId : Option String := none
  compactionRoundCompletionInfo : Option (List (String × String)) := none
  streamPosition : Option ℕ := none
  deltaType : Option DeltaType := none
  previousStreamPosition : Option ℕ := none
  manifest : Option (List String) := none
  properties : List (String × String) := []
  deriving DecidableEq

namespace Metafile

/-- `id`. -/
def id (metafile : Metafile) : String :=
  metafile.locator.name.immutableId.getD ((nonEmpty metafile.uuid).getD "")

/-- `locator_alias`: streams and partitions have one unless they are staged. -/
def locatorAlias (metafile : Metafile) : Option Locator :=
  if metafile.state = some .staged then none
  else
    match metafile.locator.name with
    | .streamName _ format => some ⟨metafile.locator.parents, .streamAliasName format⟩
    | .partitionName partitionValues _ =>
        some ⟨metafile.locator.parents,
          .partitionAliasName partitionValues metafile.partitionSchemeId⟩
    | _ => none

/--
`to_serializable`: the names of the namespace and of the table can change
without the objects below them, so these names are not stored; the object's own
identifier stands in their places.
-/
def toSerializable (metafile : Metafile) : Metafile :=
  match metafile.locator.name with
  | .namespaceName _ => metafile
  | .tableName _ =>
      { metafile with locator := ⟨[.namespaceName metafile.id], metafile.locator.name⟩ }
  | _ =>
      { metafile with
        locator :=
          ⟨.namespaceName metafile.id :: .tableName metafile.id :: metafile.locator.parents.drop 2,
            metafile.locator.name⟩ }

end Metafile

/-- The object or the name that a revision directory belongs to. -/
inductive RevisionEntry
  | metafile (id : String)
  | mapping (name : LocatorName)
  deriving DecidableEq

/-- A revision directory: the identifiers of the ancestors, and the entry below them. -/
structure RevisionDir where
  parentIds : List String
  entry : RevisionEntry
  deriving DecidableEq

/-- A metafile, or the identifier that the extension of a mapping file carries. -/
inductive RevisionContent
  | metafile (metafile : Metafile)
  | mapping (id : String)
  deriving DecidableEq

structure RevisionFile where
  dir : RevisionDir
  info : MetafileRevisionInfo
  content : RevisionContent
  deriving DecidableEq

namespace RevisionFile

def path (file : RevisionFile) : RevisionPath RevisionDir :=
  (file.dir, file.info)

end RevisionFile

/--
What is stored under the catalog root: the revision files, the object
directories (which outlive the files in them), and the transaction logs.
-/
structure Catalog where
  files : List RevisionFile
  objectDirs : List (List String)
  success : SuccessLog
  running : List TransactionId
  failed : List TransactionId
  paused : List TransactionId

namespace Catalog

def empty : Catalog where
  files := []
  objectDirs := []
  success := fun _ => none
  running := []
  failed := []
  paused := []

/-- The revision files of a directory. -/
def filesIn (catalog : Catalog) (dir : RevisionDir) : List MetafileRevisionInfo :=
  (catalog.files.filter (·.dir = dir)).map (·.info)

/-- The file at a path. -/
def fileAt (catalog : Catalog) (dir : RevisionDir) (info : MetafileRevisionInfo) :
    Option RevisionFile :=
  catalog.files.find? fun file => file.dir = dir ∧ file.info = info

/-- `latest_revision` with `ignore_missing_revision`, and the file it names. -/
def latest (catalog : Catalog) (reader : Reader) (dir : RevisionDir) :
    Except Error (Option RevisionFile) := do
  let mri ← latestRevision (catalog.filesIn dir) reader catalog.success
  return mri.bind (catalog.fileAt dir)

/-- `_locator_to_id`. -/
def locatorToId (catalog : Catalog) (reader : Reader) (metafileRoot : List String)
    (name : LocatorName) : Except Error (Option String) := do
  match name.immutableId with
  | some metafileId => return some metafileId
  | none =>
      match ← catalog.latest reader ⟨metafileRoot, .mapping name⟩ with
      | none => return none
      | some file =>
          if file.info.txnOpType = .delete then return none
          else
            match file.content with
            | .mapping metafileId => return some metafileId
            | .metafile _ => return none

/-- The loop of `_ancestor_ids`, from the root downwards. -/
def ancestorIdsFrom (catalog : Catalog) (reader : Reader) :
    List LocatorName → List String → Except Error (List String)
  | [], metafileRoot => .ok metafileRoot
  | parentLocator :: parentLocators, metafileRoot => do
      match ← catalog.locatorToId reader metafileRoot parentLocator with
      | none => .error .objectNotFoundError
      | some ancestorId =>
          if metafileRoot ++ [ancestorId] ∈ catalog.objectDirs then
            catalog.ancestorIdsFrom reader parentLocators (metafileRoot ++ [ancestorId])
          else .error .objectNotFoundError

/-- `ancestor_ids`: resolved from the locator unless they are known already. -/
def ancestorIds (catalog : Catalog) (reader : Reader) (metafile : Metafile) :
    Except Error (List String) :=
  if metafile.ancestorIds = [] then
    catalog.ancestorIdsFrom reader metafile.locator.parents []
  else .ok metafile.ancestorIds

/-- The revision directory of the object at a path of identifiers. -/
def revisionDirOf (objectPath : List String) : Option RevisionDir :=
  objectPath.getLast?.map fun id => ⟨objectPath.dropLast, .metafile id⟩

/-- The locator in the latest revision of an ancestor. -/
def ancestorLocator (catalog : Catalog) (reader : Reader) (objectPath : List String) :
    Except Error Locator := do
  let found : Option RevisionFile ←
    match revisionDirOf objectPath with
    | none => pure none
    | some dir => catalog.latest reader dir
  match found.map RevisionFile.content with
  | some (.metafile metafile) => return metafile.locator
  | _ => .error .objectNotFoundError

/-- `Table.read` of the latest revision of the table at a path, for its locator. -/
def tableLocator (catalog : Catalog) (reader : Reader) (tablePath : List String) :
    Except Error Locator := do
  let table ← catalog.ancestorLocator reader tablePath
  let parentNamespace ← catalog.ancestorLocator reader tablePath.dropLast
  return ⟨parentNamespace.names, table.name⟩

/--
`read`, with `from_serializable` of each class. The table of a table version is
its parent, that of a stream its second ancestor, and so on. All of these look
the ancestors up without a transaction, so that any file counts as committed.
-/
def read (catalog : Catalog) (objectPath : List String) (metafile : Metafile) :
    Except Error Metafile :=
  let restored (parentNumber : ℕ) : Except Error Metafile := do
    let table ← catalog.tableLocator ⟨none, none⟩
      (objectPath.take (objectPath.length - parentNumber))
    return { metafile with
      locator := ⟨table.names ++ metafile.locator.parents.drop 2, metafile.locator.name⟩ }
  match metafile.locator.name with
  | .namespaceName _ => .ok metafile
  | .tableName _ => do
      let parentNamespace ← catalog.ancestorLocator ⟨none, none⟩ objectPath.dropLast
      return { metafile with
        locator := ⟨parentNamespace.names, metafile.locator.name⟩ }
  | .tableVersionName _ => restored 1
  | .streamName _ _ | .streamAliasName _ => restored 2
  | .partitionName _ _ | .partitionAliasName _ _ => restored 3
  | .deltaName _ => restored 4

/-- `read` of a revision file. -/
def readFile (catalog : Catalog) (file : RevisionFile) : Except Error Metafile :=
  match file.dir.entry, file.content with
  | .metafile id, .metafile metafile => catalog.read (file.dir.parentIds ++ [id]) metafile
  | _, _ => .error .valueError

/-- The name by which `revisions` looks an object up: its locator's if that is defined. -/
def lookupName (metafile : Metafile) : Option LocatorName :=
  if metafile.locator.name.isDefined then some metafile.locator.name
  else (metafile.locatorAlias.map (·.name)).filter (·.isDefined)

/-- The part of `revisions` that finds the revision directory of an object, if it has one. -/
def resolve (catalog : Catalog) (reader : Reader) (metafile : Metafile) :
    Except Error (Option RevisionDir) :=
  match catalog.ancestorIds reader metafile with
  | .error .objectNotFoundError => .ok none
  | .error error => .error error
  | .ok parentRoot =>
      match lookupName metafile with
      | none => .ok none
      | some name => do
          let immutableId ←
            match nonEmpty metafile.uuid with
            | some uuid => pure (some uuid)
            | none => catalog.locatorToId reader parentRoot name
          return (nonEmpty immutableId).map fun id => ⟨parentRoot, .metafile id⟩

/--
`revisions` with a limit of one: the latest revision of an object with its
operation. The revision is read even if it is a delete.
-/
def latestOf (catalog : Catalog) (reader : Reader) (metafile : Metafile) (materialize : Bool) :
    Except Error (Option (TransactionOperationType × Option Metafile)) := do
  match ← catalog.resolve reader metafile with
  | none => return none
  | some dir =>
      match ← catalog.latest reader dir with
      | none => return none
      | some file =>
          let item ← if materialize then some <$> catalog.readFile file else pure none
          return some (file.info.txnOpType, item)

/-- The identifiers that `list_directory` finds below an object, in descending order. -/
def childIds (catalog : Catalog) (metafileRoot : List String) : List String :=
  ((catalog.files.filterMap fun file =>
    match file.dir.entry with
    | .metafile id =>
        if file.dir.parentIds = metafileRoot ∧ ¬Utils.hasExcludedPrefix id then some id else none
    | .mapping _ => none).dedup).insertionSort fun left right => right ≤ left

/-- The loop of `_list_metafiles`. -/
def listMetafilesFrom (catalog : Catalog) (reader : Reader) (metafileRoot : List String)
    (limit : Option ℕ) : List String → List Metafile → Except Error (List Metafile)
  | [], items => .ok items
  | id :: ids, items => do
      let found ← catalog.latest reader ⟨metafileRoot, .metafile id⟩
      let items ←
        match found with
        | none => pure items
        | some file =>
            if file.info.txnOpType = .delete then pure items
            else (fun item => items ++ [item]) <$> catalog.readFile file
      if limit.any fun limit => 0 < limit ∧ limit ≤ items.length then .ok items
      else catalog.listMetafilesFrom reader metafileRoot limit ids items

/-- `_list_metafiles`. -/
def listMetafiles (catalog : Catalog) (reader : Reader) (metafileRoot : List String)
    (limit : Option ℕ) : Except Error (List Metafile) :=
  catalog.listMetafilesFrom reader metafileRoot limit (catalog.childIds metafileRoot) []

/-- `siblings`. -/
def siblings (catalog : Catalog) (reader : Reader) (metafile : Metafile) (limit : Option ℕ) :
    Except Error (List Metafile) := do
  let parentRoot ← catalog.ancestorIds reader metafile
  catalog.listMetafiles reader parentRoot limit

/-- `children`. -/
def children (catalog : Catalog) (reader : Reader) (metafile : Metafile) (limit : Option ℕ) :
    Except Error (List Metafile) := do
  let parentRoot ← catalog.ancestorIds reader metafile
  catalog.listMetafiles reader (parentRoot ++ [metafile.id]) limit

end Catalog

end Deltacat.Storage
