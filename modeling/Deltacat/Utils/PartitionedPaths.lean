import Deltacat.Library.PosixPath
import Deltacat.Utils.ExponentialPartitions
import Mathlib.Tactic

/-!
# Partitioned paths

The path of a partitioned file is derived from the path it would have without
partitions, by directories that are inserted above the file, and the other way
round by removing the last directories of a path if they are partitions.

Removing what was inserted gives the path back except where the path does not say
which separators it had: the root directory is lost, and repeated separators before
the file's name are joined into one (`removesWhatWasInserted_iff`). A path that does
not end in partitions (`EndsInPartitions`) stays as it is.
-/

namespace Deltacat.Utils

open Deltacat.Library

/-- The directories that `write_file_partitioned` goes up before it inserts partitions. -/
def ancestor : ℕ → List Char → List Char
  | 0, path => path
  | levels + 1, path => ancestor levels (dirname path)

/-- The directories that it went up, added again below the partitions, the innermost first. -/
def rebuild : ℕ → List Char → List Char → List Char
  | 0, _, partitionedPath => partitionedPath
  | levels + 1, baseDir, partitionedPath =>
      rebuild levels (dirname baseDir) (joinPath partitionedPath (basename baseDir))

/-- The path that `write_file_partitioned` writes to. -/
def partitionedFilePath (path : List Char) (partitionDirs : List String)
    (partitionLevelsAboveFile : ℕ) : Except Error (List Char) :=
  if partitionDirs.any fun dirName => '/' ∈ dirName.toList then .error .valueError
  else
    let baseDir := dirname path
    let inserted := (partitionDirs.map String.toList).foldl joinPath
      (ancestor partitionLevelsAboveFile baseDir)
    .ok (joinPath (rebuild partitionLevelsAboveFile baseDir inserted) (basename path))

/-- The directories of a path; the file's name is none of them unless there is no file. -/
def directoryParts (path : List Char) (isDirectoryPath : Bool) : List (List Char) :=
  let directories := if isDirectoryPath then path else dirname path
  if directories = [] then [] else directories.splitOn '/'

/-- The value of the last directories of a path, if they are partitions. -/
def lastPartitions (path : List Char) (base levels : ℕ) (isDirectoryPath : Bool) : Option ℕ :=
  let dirParts := directoryParts path isDirectoryPath
  if dirParts.length < levels then none
  else
    parseExponentialPartitions
      ((dirParts.drop (dirParts.length - levels)).map String.ofList) base

/-- `remove_exponential_partitions`. -/
def removeExponentialPartitions (path : List Char) (base levels : ℕ) (isDirectoryPath : Bool) :
    Except Error (List Char) :=
  if base ≤ 1 then .error .valueError
  else if levels = 0 then .error .valueError
  else
    match lastPartitions path base levels isDirectoryPath with
    | none => .ok path
    | some _ =>
        let dirParts := directoryParts path isDirectoryPath
        let unpartitionedDir := ['/'].intercalate (dirParts.take (dirParts.length - levels))
        let filename := if isDirectoryPath then [] else basename path
        .ok (if filename = [] then unpartitionedDir else joinPath unpartitionedDir filename)

example : removeExponentialPartitions "/data/1000000/2000/file.json".toList 1000 2 false =
    .ok "/data/file.json".toList := by
  decide +kernel

variable {base levels value : ℕ} {path : List Char} {dirs : List String}

/--
The path is cut at its last separator and joined there again without a loss: it
has no directory, or one that is not the root, with one separator after it.
-/
def CutsCleanly (path : List Char) : Prop :=
  dirname path = [] ∨
    ¬(dirname path).all (· = '/') ∧ path = dirname path ++ '/' :: basename path

/--
Each name is the decimal numeral, in any digits, of a positive multiple of the
capacity of its level, which is the base for the last one.
-/
inductive PartitionNames (base : ℕ) : List (List Char) → List ℕ → Prop
  | nil : PartitionNames base [] []
  | cons {name : List Char} {names : List (List Char)} {multiplier : ℕ} {multipliers : List ℕ}
      (positive : 0 < multiplier)
      (isNumeral : readDecimal name = some (multiplier * base ^ (names.length + 1)))
      (rest : PartitionNames base names multipliers) :
      PartitionNames base (name :: names) (multiplier :: multipliers)

/-- The value that partitions stand for, of which all but the last are full up to it. -/
def capacityOf (base : ℕ) : List ℕ → ℕ
  | [] => 0
  | [multiplier] => multiplier * base
  | multiplier :: multipliers =>
      (multiplier - 1) * base ^ (multipliers.length + 1) + capacityOf base multipliers

/-- The last directories are valid partitions of this many levels. -/
def EndsInPartitions (base levels : ℕ) (directories : List (List Char)) : Prop :=
  ∃ before names multipliers, directories = before ++ names ∧ names.length = levels ∧
    PartitionNames base names multipliers ∧ capacityOf base multipliers ≤ unsignedInt64MaxValue

/-- Removing partitions undoes inserting them, and leaves other paths as they are. -/
structure RemovesWhatWasInserted (base levels : ℕ) (dirs : List String) (path : List Char) :
    Prop where
  undone : ∃ partitioned, partitionedFilePath path dirs 0 = .ok partitioned ∧
    removeExponentialPartitions partitioned base levels false = .ok path
  unchanged : ∀ (other : List Char) (isDirectoryPath : Bool),
    ¬EndsInPartitions base levels (directoryParts other isDirectoryPath) →
      removeExponentialPartitions other base levels isDirectoryPath = .ok other

section Parsing

theorem partitionMultiplier_eq_some {level multiplier : ℕ} {dirName : String}
    (parsed : partitionMultiplier base level dirName = some multiplier) :
    0 < multiplier ∧ readDecimal dirName.toList = some (multiplier * base ^ level) := by
  simp only [partitionMultiplier, Option.bind_eq_bind, Option.bind_eq_some_iff] at parsed
  rcases parsed with ⟨partitionValue, isNumeral, isMultiple⟩
  split_ifs at isMultiple with invalid
  push Not at invalid
  rcases invalid with ⟨-, isMultiple', positive⟩
  cases isMultiple
  refine ⟨Nat.pos_of_ne_zero positive, ?_⟩
  rw [isNumeral, Nat.div_mul_cancel (Nat.dvd_of_mod_eq_zero isMultiple')]

theorem partitionNames_of_multipliers {dirNames : List String} {multipliers : List ℕ}
    (parsed : partitionMultipliers base dirNames = some multipliers) :
    PartitionNames base (dirNames.map String.toList) multipliers := by
  induction dirNames generalizing multipliers with
  | nil =>
      cases parsed
      exact .nil
  | cons dirName dirNames ih =>
      simp only [partitionMultipliers, Option.bind_eq_bind, Option.bind_eq_some_iff,
        Option.pure_def, Option.some.injEq] at parsed
      rcases parsed with ⟨multiplier, isFirst, rest, areRest, rfl⟩
      rcases partitionMultiplier_eq_some isFirst with ⟨positive, isNumeral⟩
      refine .cons positive ?_ (ih areRest)
      rwa [List.length_map]

/-- What the contributions add up to, which only has a value if it fits into 64 bits. -/
theorem totalContribution_eq_some {multipliers : List ℕ} {start total : ℕ}
    (bounded : start ≤ unsignedInt64MaxValue)
    (summed : totalContribution base multipliers start = some total) :
    total = start + capacityOf base multipliers ∧ total ≤ unsignedInt64MaxValue := by
  induction multipliers generalizing start with
  | nil =>
      cases summed
      exact ⟨rfl, bounded⟩
  | cons multiplier multipliers ih =>
      rw [totalContribution] at summed
      cases multipliers with
      | nil =>
          simp only [if_true] at summed
          split at summed
          · cases summed
          rename_i fits
          cases summed
          simp only [List.length_nil, Nat.zero_add, pow_one] at fits ⊢
          exact ⟨rfl, Nat.le_of_not_lt fits⟩
      | cons next others =>
          rw [if_neg (List.cons_ne_nil next others)] at summed
          split at summed
          · cases summed
          rename_i fits
          rcases ih (Nat.le_of_not_lt fits) summed with ⟨rfl, totalFits⟩
          exact ⟨Nat.add_assoc _ _ _, totalFits⟩

/-- What the parser accepts are valid partitions. -/
theorem exists_partitionNames {dirNames : List String} {parsedValue : ℕ}
    (parsed : parseExponentialPartitions dirNames base = some parsedValue) :
    ∃ multipliers, PartitionNames base (dirNames.map String.toList) multipliers ∧
      capacityOf base multipliers ≤ unsignedInt64MaxValue := by
  rw [parseExponentialPartitions] at parsed
  split at parsed
  · cases parsed
  simp only [Option.bind_eq_bind, Option.bind_eq_some_iff] at parsed
  rcases parsed with ⟨multipliers, areMultipliers, total, summed, -⟩
  rcases totalContribution_eq_some (Nat.zero_le _) summed with ⟨rfl, fits⟩
  rw [Nat.zero_add] at fits
  exact ⟨multipliers, partitionNames_of_multipliers areMultipliers, fits⟩

/-- Partitions are found only in a path that ends in partitions. -/
theorem lastPartitions_eq_none {isDirectoryPath : Bool}
    (notPartitioned : ¬EndsInPartitions base levels (directoryParts path isDirectoryPath)) :
    lastPartitions path base levels isDirectoryPath = none := by
  rw [Option.eq_none_iff_forall_ne_some]
  intro parsedValue parsed
  rw [lastPartitions] at parsed
  split at parsed
  · cases parsed
  rename_i enough
  rcases exists_partitionNames parsed with ⟨multipliers, areNames, fits⟩
  rw [List.map_map] at areNames
  have isDropped (names : List (List Char)) :
      names.map (String.toList ∘ String.ofList) = names := by
    simp
  rw [isDropped] at areNames
  apply notPartitioned
  refine ⟨_, _, multipliers, (List.take_append_drop _ _).symm, ?_, areNames, fits⟩
  rw [List.length_drop]
  omega

end Parsing

theorem IsWritten.areNames (written : IsWritten base levels value dirs) :
    ∀ name ∈ dirs.map String.toList, IsName name := by
  intro name nameMem
  rw [written.isDirs, List.map_map] at nameMem
  rcases List.mem_map.mp nameMem with ⟨capacity, -, rfl⟩
  have isNumeral : (String.toList ∘ Nat.repr) capacity = Nat.toDigits 10 capacity := by
    simp [Nat.repr]
  rw [isNumeral]
  refine ⟨Nat.toDigits_ne_nil, ?_⟩
  intro slashMem
  have isDigit := Nat.isDigit_of_mem_toDigits (by norm_num) (by norm_num) slashMem
  exact absurd isDigit (by decide)

theorem IsWritten.length_eq (written : IsWritten base levels value dirs) :
    dirs.length = levels := by
  rw [written.isDirs, List.length_map, length_exponentialPartitionValues]

theorem IsWritten.map_ne_nil (written : IsWritten base levels value dirs) :
    dirs.map String.toList ≠ [] := by
  rw [ne_eq, List.map_eq_nil_iff, ← List.length_eq_zero_iff, written.length_eq]
  exact written.levelsPos.ne'

/-- The path of a partitioned file, whose name stands below the partitions. -/
theorem IsWritten.partitionedFilePath_eq (written : IsWritten base levels value dirs)
    (path : List Char) :
    ∃ before name, IsName name ∧
      withSeparator (dirname path) ++ ['/'].intercalate (dirs.map String.toList) = before ++ name ∧
      partitionedFilePath path dirs 0 = .ok (before ++ name ++ '/' :: basename path) := by
  have noSeparator : ¬dirs.any fun dirName => '/' ∈ dirName.toList := by
    rw [Bool.not_eq_true, List.any_eq_false]
    intro dirName dirMem
    rw [decide_eq_true_eq]
    exact (written.areNames _ (List.mem_map_of_mem dirMem)).noSlash
  rcases exists_last_name written.map_ne_nil written.areNames (withSeparator (dirname path)) with
    ⟨before, name, isName, isPath⟩
  refine ⟨before, name, isName, isPath, ?_⟩
  rw [partitionedFilePath, if_neg noSeparator]
  dsimp only [ancestor, rebuild]
  rw [foldl_joinPath written.map_ne_nil written.areNames, isPath,
    joinPath_eq (slash_not_mem_basename path), withSeparator_append isName, List.append_assoc]
  rfl

/-- Removing partitions keeps the directories before them, and the file's name. -/
theorem removeExponentialPartitions_eq (written : IsWritten base levels value dirs)
    {directory name : List Char} {kept : List (List Char)} (isFile : basename path ≠ [])
    (isName : IsName name)
    (isSplit : (directory ++ name).splitOn '/' = kept ++ dirs.map String.toList) :
    removeExponentialPartitions (directory ++ name ++ '/' :: basename path) base levels false =
      .ok (joinPath (['/'].intercalate kept) (basename path)) := by
  have noSlash := slash_not_mem_basename path
  have nonempty : directory ++ name ≠ [] := by
    simp [isName.nonempty]
  have parts : directoryParts (directory ++ name ++ '/' :: basename path) false =
      kept ++ dirs.map String.toList := by
    simp only [directoryParts, Bool.false_eq_true, if_false]
    rw [dirname_append_name isName directory noSlash, if_neg nonempty, isSplit]
  have counts : (kept ++ dirs.map String.toList).length - levels = kept.length := by
    rw [List.length_append, List.length_map, written.length_eq, Nat.add_sub_cancel]
  have found : lastPartitions (directory ++ name ++ '/' :: basename path) base levels false =
      some (leastMultiple base value) := by
    simp only [lastPartitions, parts, counts]
    rw [if_neg (by rw [List.length_append, List.length_map, written.length_eq]; omega),
      List.drop_left, List.map_map]
    have isDirs : dirs.map (String.ofList ∘ String.toList) = dirs := by
      simp
    rw [isDirs, written.parse_eq]
  have baseLarge := written.baseLarge
  rw [removeExponentialPartitions, if_neg (by omega), if_neg written.levelsPos.ne', found]
  simp only [parts, counts, List.take_left, Bool.false_eq_true, if_false,
    basename_append noSlash, if_neg isFile]

/-- What removing the inserted partitions gives, if `stem` is the directory they are found in. -/
theorem removeExponentialPartitions_of_stem (written : IsWritten base levels value dirs)
    (isFile : basename path ≠ []) {stem : List Char}
    (isStem : withSeparator (dirname path) = stem ++ ['/']) :
    ∃ partitioned, partitionedFilePath path dirs 0 = .ok partitioned ∧
      removeExponentialPartitions partitioned base levels false =
        .ok (joinPath stem (basename path)) := by
  rcases written.partitionedFilePath_eq path with ⟨before, name, isName, isPath, isPartitioned⟩
  have isSplit : (before ++ name).splitOn '/' = stem.splitOn '/' ++ dirs.map String.toList := by
    rw [← isPath, isStem, List.append_assoc, List.singleton_append,
      splitOn_append_intercalate written.map_ne_nil written.areNames]
  refine ⟨_, isPartitioned, ?_⟩
  rw [removeExponentialPartitions_eq written isFile isName isSplit, List.intercalate_splitOn]

theorem undone_iff (written : IsWritten base levels value dirs) (isFile : basename path ≠ []) :
    (∃ partitioned, partitionedFilePath path dirs 0 = .ok partitioned ∧
      removeExponentialPartitions partitioned base levels false = .ok path) ↔ CutsCleanly path := by
  have undoneBy : ∀ {result : List Char}, (∃ partitioned,
      partitionedFilePath path dirs 0 = .ok partitioned ∧
        removeExponentialPartitions partitioned base levels false = .ok result) →
      ((∃ partitioned, partitionedFilePath path dirs 0 = .ok partitioned ∧
        removeExponentialPartitions partitioned base levels false = .ok path) ↔ result = path) := by
    rintro result ⟨partitioned, isPartitioned, removed⟩
    constructor
    · rintro ⟨other, isOther, isPath⟩
      rw [isPartitioned, Except.ok.injEq] at isOther
      rw [isOther, isPath, Except.ok.injEq] at removed
      exact removed.symm
    · rintro rfl
      exact ⟨partitioned, isPartitioned, removed⟩
  rcases exists_cut path with noSlash | ⟨directory, name, noSlash, rfl⟩
  · -- A path that is a name: the partitions are all that its new directory has.
    rcases written.partitionedFilePath_eq path with ⟨before, name, isName, isPath, isPartitioned⟩
    rw [dirname_of_noSlash noSlash] at isPath
    have isSplit : (before ++ name).splitOn '/' = [] ++ dirs.map String.toList := by
      rw [← isPath, List.nil_append]
      exact List.splitOn_intercalate '/'
        (fun other otherMem => (written.areNames other otherMem).noSlash) written.map_ne_nil
    have removed := removeExponentialPartitions_eq written isFile isName isSplit
    rw [undoneBy ⟨_, isPartitioned, removed⟩, joinPath_eq (slash_not_mem_basename path),
      basename_of_noSlash noSlash]
    exact iff_of_true rfl (.inl (dirname_of_noSlash noSlash))
  · by_cases isRoot : directory.all (· = '/')
    · -- The directory has only separators, of which one is lost.
      have isDirname : dirname (directory ++ '/' :: name) = directory ++ ['/'] := by
        rw [dirname_append noSlash, if_pos isRoot]
      have isStem : withSeparator (dirname (directory ++ '/' :: name)) = directory ++ ['/'] := by
        rw [isDirname, withSeparator, if_pos (.inr (by simp))]
      have removed := removeExponentialPartitions_of_stem written isFile isStem
      have unchanged : withSeparator directory = directory := by
        rw [withSeparator, ite_eq_left_iff]
        intro notEnded
        exfalso
        push Not at notEnded
        apply notEnded.2
        rw [List.getLast?_eq_some_getLast notEnded.1]
        simpa using List.all_eq_true.mp isRoot _ (List.getLast_mem notEnded.1)
      rw [undoneBy removed, joinPath_eq (slash_not_mem_basename _), unchanged,
        basename_append noSlash]
      apply iff_of_false
      · simp
      · rintro (isEmpty | ⟨notRoot, -⟩)
        · simp [isDirname] at isEmpty
        · apply notRoot
          rw [isDirname, List.all_append, isRoot]
          rfl
    · have isDirname : dirname (directory ++ '/' :: name) = directory.rdropWhile (· = '/') := by
        rw [dirname_append noSlash, if_neg isRoot]
      have nonempty : directory.rdropWhile (· = '/') ≠ [] := by
        rw [ne_eq, List.rdropWhile_eq_nil_iff, ← List.all_eq_true]
        exact isRoot
      have last := List.rdropWhile_last_not _ _ nonempty
      have isStem : withSeparator (dirname (directory ++ '/' :: name)) =
          directory.rdropWhile (· = '/') ++ ['/'] := by
        rw [isDirname, withSeparator, if_neg]
        rintro (isEmpty | isLast)
        · exact nonempty isEmpty
        · rw [List.getLast?_eq_some_getLast nonempty, Option.some.injEq] at isLast
          simp [isLast] at last
      have removed := removeExponentialPartitions_of_stem written isFile isStem
      have notRoot : ¬(directory.rdropWhile (· = '/')).all (· = '/') := by
        intro allSlash
        exact last (List.all_eq_true.mp allSlash _ (List.getLast_mem nonempty))
      rw [undoneBy removed, joinPath_eq (slash_not_mem_basename _), ← isDirname, isStem,
        CutsCleanly, isDirname]
      constructor
      · intro same
        refine .inr ⟨notRoot, ?_⟩
        rw [List.append_assoc, List.singleton_append] at same
        exact same.symm
      · rintro (isEmpty | ⟨-, same⟩)
        · exact absurd isEmpty nonempty
        · rw [List.append_assoc, List.singleton_append]
          exact same.symm

/--
Exactly the paths that are cut cleanly come back when the inserted partitions are
removed. Paths without partitions never change.
-/
theorem removesWhatWasInserted_iff (isFile : basename path ≠ [])
    (written : exponentialPartitionTransform value base levels = .ok dirs) :
    RemovesWhatWasInserted base levels dirs path ↔ CutsCleanly path := by
  rw [exponentialPartitionTransform_eq_ok_iff] at written
  rw [← undone_iff written isFile]
  constructor
  · exact RemovesWhatWasInserted.undone
  · intro undone
    refine ⟨undone, ?_⟩
    intro other isDirectoryPath notPartitioned
    have baseLarge := written.baseLarge
    rw [removeExponentialPartitions, if_neg (by omega), if_neg written.levelsPos.ne',
      lastPartitions_eq_none notPartitioned]

theorem removesWhatWasInserted_relative :
    RemovesWhatWasInserted 1000 2 ["2000000", "500000"] "data/file.json".toList :=
  (@removesWhatWasInserted_iff 1000 2 1500000 _ _ (by decide +kernel) (by decide +kernel)).mpr
    (.inr (by decide +kernel))

/-- A file in the root directory is found in no directory afterwards. -/
theorem not_removesWhatWasInserted :
    ¬∀ (base levels value : ℕ) (dirs : List String) (path : List Char), basename path ≠ [] →
      exponentialPartitionTransform value base levels = .ok dirs →
        RemovesWhatWasInserted base levels dirs path := by
  intro allRemoved
  rcases (allRemoved 1000 2 1500 ["1000000", "2000"] "/file.json".toList (by decide +kernel)
    (by decide +kernel)).undone with ⟨partitioned, isPartitioned, removed⟩
  have found : partitionedFilePath "/file.json".toList ["1000000", "2000"] 0 =
      .ok "/1000000/2000/file.json".toList := by
    decide +kernel
  rw [found, Except.ok.injEq] at isPartitioned
  have relative : removeExponentialPartitions "/1000000/2000/file.json".toList 1000 2 false =
      .ok "file.json".toList := by
    decide +kernel
  rw [← isPartitioned, relative, Except.ok.injEq] at removed
  exact absurd removed (by decide +kernel)

end Deltacat.Utils
