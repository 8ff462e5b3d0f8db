import Deltacat.Exceptions
import Deltacat.Library.Decimal
import Mathlib.Data.List.Sort
import Mathlib.Data.String.Basic
import Mathlib.Tactic

/-!
# Partitioned directories

Revision files are not kept in one flat directory. `write_file_partitioned`
inserts directories above a file that `exponential_partition_transform` derives
from its revision number, and `list_directory_partitioned` walks these
directories from the greatest number at or below a requested one downwards,
until it has collected the requested number of files.

Paths are lists of names below the directory that is searched. A directory
entry records the directory it is in, and a filesystem is the list of its
entries. Listing a directory that does not exist gives no entries: the search
passes `ignore_missing_path` at its root, and below the root it lists only
what it has just seen. This may be a file with the name of a partition
directory, which cannot be listed.
-/

namespace Deltacat.Utils

open Deltacat.Library

/-- `UNSIGNED_INT64_MAX_VALUE`. -/
def unsignedInt64MaxValue : ℕ := 2 ^ 64 - 1

/-- A file or a directory, in the directory `parent`. -/
structure DirectoryEntry where
  parent : List String
  name : String
  isFile : Bool
  deriving DecidableEq

/-- The entries below the searched directory. -/
abbrev FileSystem := List DirectoryEntry

/-- The default `exclude_prefixes` are `.` and `_`. -/
def hasExcludedPrefix (name : String) : Bool :=
  name.toList.head? = some '.' || name.toList.head? = some '_'

/-- The order of `sorted(..., reverse=True)` on the paths of one directory. -/
def NameDescending (left right : DirectoryEntry) : Prop :=
  right.name ≤ left.name

instance : DecidableRel NameDescending :=
  fun left right => inferInstanceAs (Decidable (right.name ≤ left.name))

instance : Std.Total NameDescending :=
  ⟨fun left right => le_total right.name left.name⟩

instance : IsTrans DirectoryEntry NameDescending :=
  ⟨fun _ _ _ first second => le_trans second first⟩

/-- `list_directory` without recursion: the entries of one directory, in descending name order. -/
def listDirectory (filesystem : FileSystem) (path : List String) : List DirectoryEntry :=
  (filesystem.filter fun entry => entry.parent = path ∧ ¬hasExcludedPrefix entry.name).insertionSort
    NameDescending

/-- There is a file at a path. -/
def isFileAt (filesystem : FileSystem) (path : List String) : Bool :=
  filesystem.any fun entry => entry.isFile && entry.parent ++ [entry.name] == path

/-- The capacities that `exponential_partition_transform` computes from the highest level down. -/
def exponentialPartitionValues (base : ℕ) : ℕ → ℕ → List ℕ
  | 0, _ => []
  | levels + 1, remainingValue =>
      let divisor := base ^ (levels + 1)
      let multiplier := (remainingValue + divisor - 1) / divisor
      multiplier * divisor ::
        exponentialPartitionValues base levels (remainingValue - (multiplier - 1) * divisor)

/-- `exponential_partition_transform`. -/
def exponentialPartitionTransform (value base levels : ℕ) : Except Error (List String) :=
  if value = 0 then .error .valueError
  else if base ≤ 1 then .error .valueError
  else if levels = 0 then .error .valueError
  else
    let partitions := exponentialPartitionValues base levels value
    if partitions.any fun partitionValue => partitionValue > unsignedInt64MaxValue then
      .error .valueError
    else .ok (partitions.map Nat.repr)

/--
The multiplier that a directory name contributes at a level, if the name is a valid
one. `int` refuses the digits that `isdigit` accepts beside decimal ones, such as
superscripts, and the exception makes the name invalid, too.
-/
def partitionMultiplier (base level : ℕ) (dirName : String) : Option ℕ := do
  let partitionValue ← readDecimal dirName.toList
  let divisor := base ^ level
  if partitionValue = 0 ∨ partitionValue % divisor ≠ 0 ∨ partitionValue / divisor = 0 then none
  else some (partitionValue / divisor)

/-- A directory that was written for a multiplier is read back as this multiplier. -/
theorem partitionMultiplier_repr {base level multiplier : ℕ} (positive : 0 < multiplier)
    (basePositive : 0 < base) :
    partitionMultiplier base level (multiplier * base ^ level).repr = some multiplier := by
  have powerPositive : 0 < base ^ level := Nat.pow_pos basePositive
  simp [partitionMultiplier, basePositive.ne', positive.ne', Nat.mul_div_cancel _ powerPositive,
    Nat.le_mul_of_pos_left _ positive]

/-- The multipliers of a path of partition directories, outermost first. -/
def partitionMultipliers (base : ℕ) : List String → Option (List ℕ)
  | [] => some []
  | dirName :: dirNames => do
      let multiplier ← partitionMultiplier base (dirNames.length + 1) dirName
      let multipliers ← partitionMultipliers base dirNames
      return multiplier :: multipliers

/-- The accumulated contribution of the multipliers, unless it exceeds 64 bits. -/
def totalContribution (base : ℕ) : List ℕ → ℕ → Option ℕ
  | [], total => some total
  | multiplier :: multipliers, total =>
      let divisor := base ^ (multipliers.length + 1)
      let contribution :=
        if multipliers = [] then multiplier * divisor else (multiplier - 1) * divisor
      if total + contribution > unsignedInt64MaxValue then none
      else totalContribution base multipliers (total + contribution)

/--
`parse_exponential_partitions`. The source compares the number of directories
with its `levels` argument and uses the number of directories in either case.
-/
def parseExponentialPartitions (partitionDirs : List String) (base : ℕ) : Option ℕ :=
  if partitionDirs = [] then none
  else do
    let multipliers ← partitionMultipliers base partitionDirs
    let total ← totalContribution base multipliers 0
    return max 1 total

/-- The arguments of a partitioned search that do not change while it recurses. -/
structure PartitionSearch where
  targetPartitions : List String
  partitionValue : ℕ
  partitionStartValue : Option ℕ
  targetStartPartitions : Option (List String)
  partitionDirParser : List String → Option ℕ
  partitionFileParser : String → Option ℕ

/-- `items[:limit]`, where no limit keeps everything. -/
def applyLimit {Item : Type} (limit : Option ℕ) (items : List Item) : List Item :=
  match limit with
  | none => items
  | some count => items.take count

namespace PartitionSearch

variable (search : PartitionSearch) (filesystem : FileSystem)

/-- Whether a file of a leaf partition at the boundary of the range lies in the range. -/
def keepsBoundaryFile (path : List String) (entry : DirectoryEntry) : Bool :=
  match search.partitionFileParser entry.name with
  | none => false
  | some filePartitionValue =>
      !(path = search.targetPartitions && filePartitionValue > search.partitionValue) &&
        !(some path = search.targetStartPartitions &&
          search.partitionStartValue.any fun start => filePartitionValue < start)

/-- The files of a complete partition path that lie in the range. -/
def leafFiles (path : List String) : List DirectoryEntry :=
  let needUpperBoundFiltering := path = search.targetPartitions
  let needLowerBoundFiltering :=
    search.partitionStartValue.isSome ∧ some path = search.targetStartPartitions
  if needUpperBoundFiltering ∨ needLowerBoundFiltering then
    (listDirectory filesystem path).filter (search.keepsBoundaryFile path)
  else listDirectory filesystem path

/-- The parsed value of the target path up to the depth below `path`. -/
def targetValue (path : List String) : ℕ :=
  (search.partitionDirParser (search.targetPartitions.take (path.length + 1))).getD 0

/-- The parsed value of the start path up to the depth below `path`, if there is a start. -/
def targetStartValue (path : List String) : Option ℕ :=
  match search.targetStartPartitions with
  | none => none
  | some startPartitions =>
      if path.length < startPartitions.length then
        some ((search.partitionDirParser (startPartitions.take (path.length + 1))).getD 0)
      else none

/-- An item of the directory `path` with its parsed value, if it is worth descending into. -/
def candidate (path : List String) (item : DirectoryEntry) : Option (ℕ × String) :=
  match search.partitionDirParser (path ++ [item.name]) with
  | none => none
  | some parsedValue =>
      if parsedValue ≤ search.targetValue path ∧
          (search.targetStartValue path).all (· ≤ parsedValue) then
        some (parsedValue, item.name)
      else none

/-- The directories to descend into, with their parsed values, greatest value first. -/
def candidates (path : List String) : List (ℕ × String) :=
  ((listDirectory filesystem path).filterMap (search.candidate path)).insertionSort
    fun left right => right.1 ≤ left.1

/--
`_traverse_partitions` with `levels` levels left to descend: the files the
subtree of `path` adds to `collected_files` under the remaining limit.
-/
def traversePartitions :
    ℕ → List String → Option ℕ → Except Error (List DirectoryEntry)
  | 0, path, limit => do
      if isFileAt filesystem path then throw .osError
      return applyLimit limit (search.leafFiles filesystem path)
  | levels + 1, path, limit => do
      if isFileAt filesystem path then throw .osError
      (search.candidates filesystem path).foldlM
        (fun collected candidate => do
          let remaining := limit.map (· - collected.length)
          if remaining = some 0 then return collected
          else
            let files ← traversePartitions levels (path ++ [candidate.2]) remaining
            return collected ++ files)
        []

/-- A file of the base directory with its parsed value, if the value lies in the range. -/
def validUnpartitionedFile (entry : DirectoryEntry) : Option (ℕ × DirectoryEntry) :=
  if entry.isFile then
    match search.partitionFileParser entry.name with
    | none => none
    | some filePartitionValue =>
        if filePartitionValue ≤ search.partitionValue ∧
            search.partitionStartValue.all (· ≤ filePartitionValue) then
          some (filePartitionValue, entry)
        else none
  else none

/-- `_collect_unpartitioned_files`. -/
def collectUnpartitionedFiles (limit : Option ℕ) : List DirectoryEntry :=
  let validUnpartitionedFiles :=
    (listDirectory filesystem []).filterMap search.validUnpartitionedFile
  applyLimit limit
    ((validUnpartitionedFiles.insertionSort fun left right => right.1 ≤ left.1).map Prod.snd)

/-- The partitioned files, followed by the unpartitioned ones while the limit allows. -/
def collectFiles (limit : Option ℕ) (returnUnpartitioned : Bool) :
    Except Error (List DirectoryEntry) := do
  let collected ←
    search.traversePartitions filesystem search.targetPartitions.length [] limit
  let remaining := limit.map (· - collected.length)
  if returnUnpartitioned ∧ remaining ≠ some 0 then
    return collected ++ search.collectUnpartitionedFiles filesystem remaining
  else return collected

end PartitionSearch

/--
`list_directory_partitioned`. The directory names that the exponential
transform produces are numerals, so the check for path separators in them is
left out.
-/
def listDirectoryPartitioned (filesystem : FileSystem) (partitionValue : ℕ)
    (partitionTransform : ℕ → Except Error (List String))
    (partitionFileParser : String → Option ℕ) (limit : Option ℕ)
    (partitionDirParser : List String → Option ℕ) (returnUnpartitioned : Bool)
    (partitionStartValue : Option ℕ) : Except Error (List DirectoryEntry) :=
  if limit = some 0 then .error .valueError
  else if partitionStartValue.any (· > partitionValue) then .error .valueError
  else do
    let targetPartitions ← partitionTransform partitionValue
    let targetStartPartitions ← partitionStartValue.mapM partitionTransform
    let search : PartitionSearch :=
      { targetPartitions, partitionValue, partitionStartValue, targetStartPartitions,
        partitionDirParser, partitionFileParser }
    search.collectFiles filesystem limit returnUnpartitioned

end Deltacat.Utils
