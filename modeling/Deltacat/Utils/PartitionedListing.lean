import Deltacat.Library.StableSorting
import Deltacat.Utils.Filesystem
import Mathlib.Data.List.Sort
import Mathlib.Data.List.Nodup
import Mathlib.Tactic

/-!
# Partitioned listings are flat listings

The partition directories are an index, not part of what a directory holds: a
partitioned search returns the files at or below the requested value in
descending name order, cut off at the limit, exactly as if all files were in one
flat directory. This needs the names to be compatible with the values (a file
with a greater value has a greater name) and the files to be where
`write_file_partitioned` puts them. `Partitioned` states the latter; it is an
invariant of writing and deleting files, and it allows for the empty partition
directories that a deletion leaves behind. `Mixed` also allows for files beside the
partition directories. The search for partitioned files does not see them, unless one
has the name of a partition directory, which ends the search with an error if the limit
is not reached before (`PartitionSearch.MeetsFile`).
-/

namespace Deltacat.Utils

open Deltacat.Library

namespace PartitionSearch

variable (search : PartitionSearch) (filesystem : FileSystem)

/-- The files that the search finds in a subtree without a limit, if no file is in its way. -/
def visitedFiles : ℕ → List String → List DirectoryEntry
  | 0, path => search.leafFiles filesystem path
  | levels + 1, path =>
      (search.candidates filesystem path).flatMap fun candidate =>
        visitedFiles levels (path ++ [candidate.2])

variable {search} in
theorem targetStartValue_eq {path startPartitions : List String} {parsedValue : ℕ}
    (isStart : search.targetStartPartitions = some startPartitions)
    (isDeep : path.length < startPartitions.length)
    (parsed : search.partitionDirParser (startPartitions.take (path.length + 1)) =
      some parsedValue) :
    search.targetStartValue path = some parsedValue := by
  simp [targetStartValue, isStart, isDeep, parsed]

/--
Among the candidates of a directory there is a file, and fewer files than the limit are
found before it, with those that were found already.
-/
def MeetsFile (levels : ℕ) (path : List String) (limit : Option ℕ) :
    ℕ → List (ℕ × String) → Prop
  | _, [] => False
  | found, candidate :: rest =>
      (∀ count ∈ limit, found < count) ∧
        (isFileAt filesystem (path ++ [candidate.2]) ∨
          MeetsFile levels path limit
            (found + (search.visitedFiles filesystem levels (path ++ [candidate.2])).length) rest)

variable {search filesystem} in
theorem meetsFile_iff {levels : ℕ} {path : List String} {limit : Option ℕ} {found : ℕ}
    {candidates : List (ℕ × String)} :
    search.MeetsFile filesystem levels path limit found candidates ↔
      ∃ before candidate after, candidates = before ++ candidate :: after ∧
        isFileAt filesystem (path ++ [candidate.2]) = true ∧
        ∀ count ∈ limit, found + (before.flatMap fun other =>
          search.visitedFiles filesystem levels (path ++ [other.2])).length < count := by
  induction candidates generalizing found with
  | nil => simp [MeetsFile]
  | cons candidate rest ih =>
      rw [MeetsFile, ih]
      constructor
      · rintro ⟨reached, isFile | ⟨before, met, after, rfl, isFile, short⟩⟩
        · exact ⟨[], candidate, rest, rfl, isFile, reached⟩
        · refine ⟨candidate :: before, met, after, rfl, isFile, ?_⟩
          simpa [Nat.add_assoc] using short
      · rintro ⟨before, met, after, split, isFile, short⟩
        refine ⟨fun count isLimit => (Nat.le_add_right _ _).trans_lt (short count isLimit), ?_⟩
        cases before with
        | nil =>
            rw [List.nil_append, List.cons.injEq] at split
            exact .inl (split.1 ▸ isFile)
        | cons first before =>
            rw [List.cons_append, List.cons.injEq] at split
            rcases split with ⟨rfl, rfl⟩
            refine .inr ⟨before, met, after, rfl, isFile, ?_⟩
            simpa [Nat.add_assoc] using short

variable {search filesystem} in
/-- The loop over the candidates, after some of them. -/
theorem foldlM_candidates {levels : ℕ} {path : List String} {limit : Option ℕ}
    {rest : List (ℕ × String)}
    (below : ∀ candidate ∈ rest, ∀ remaining,
      search.traversePartitions filesystem levels (path ++ [candidate.2]) remaining =
        if isFileAt filesystem (path ++ [candidate.2]) then .error .osError
        else .ok (applyLimit remaining
          (search.visitedFiles filesystem levels (path ++ [candidate.2]))))
    (found : List DirectoryEntry) :
    let loop := rest.foldlM
      (fun collected candidate => do
        let remaining := limit.map (· - collected.length)
        if remaining = some 0 then return collected
        else
          let files ←
            search.traversePartitions filesystem levels (path ++ [candidate.2]) remaining
          return collected ++ files)
      (applyLimit limit found)
    (search.MeetsFile filesystem levels path limit found.length rest →
      loop = (.error .osError : Except Error (List DirectoryEntry))) ∧
    (¬search.MeetsFile filesystem levels path limit found.length rest →
      loop = .ok (applyLimit limit (found ++ rest.flatMap fun candidate =>
        search.visitedFiles filesystem levels (path ++ [candidate.2])))) := by
  induction rest generalizing found with
  | nil =>
      refine ⟨fun meets => absurd meets id, fun _ => ?_⟩
      simp [pure, Except.pure]
  | cons candidate rest ih =>
      rw [List.forall_mem_cons] at below
      dsimp only
      rw [List.foldlM_cons]
      by_cases reached : ∃ count ∈ limit, count ≤ found.length
      · -- The limit is reached, and nothing is visited any more.
        rcases reached with ⟨count, rfl, enough⟩
        have full : (applyLimit (some count) found).length = count := by
          simpa [applyLimit] using enough
        have stays (more : List DirectoryEntry) :
            applyLimit (some count) (found ++ more) = applyLimit (some count) found := by
          simp [applyLimit, List.take_append_of_le_length enough]
        have notMeets (candidates : List (ℕ × String)) :
            ¬search.MeetsFile filesystem levels path (some count) found.length candidates := by
          cases candidates with
          | nil => exact id
          | cons => exact fun meets => absurd (meets.1 count rfl) (by omega)
        refine ⟨fun meets => absurd meets (notMeets _), fun _ => ?_⟩
        have later := (ih below.2 found).2 (notMeets rest)
        rw [stays] at later ⊢
        simp only [Option.map_some, full, Nat.sub_self, if_true, pure_bind]
        exact later
      · push Not at reached
        have isAll : applyLimit limit found = found := by
          cases limit with
          | none => rfl
          | some count => exact List.take_of_length_le (reached count rfl).le
        have notZero : limit.map (· - found.length) ≠ some 0 := by
          cases limit with
          | none => simp
          | some count =>
              have less := reached count rfl
              simp only [Option.map_some, ne_eq, Option.some.injEq]
              omega
        have extended (files : List DirectoryEntry) :
            found ++ applyLimit (limit.map (· - found.length)) files =
              applyLimit limit (found ++ files) := by
          cases limit with
          | none => rfl
          | some count =>
              simp only [applyLimit, Option.map_some, List.take_append]
              rw [List.take_of_length_le (reached count rfl).le]
        rw [isAll, if_neg notZero, below.1]
        by_cases isFile : isFileAt filesystem (path ++ [candidate.2])
        · rw [if_pos isFile]
          exact ⟨fun _ => rfl, fun notMeets => absurd ⟨reached, .inl isFile⟩ notMeets⟩
        · rw [if_neg isFile]
          have later := ih below.2
            (found ++ search.visitedFiles filesystem levels (path ++ [candidate.2]))
          have meets : search.MeetsFile filesystem levels path limit found.length
              (candidate :: rest) ↔ search.MeetsFile filesystem levels path limit
                (found ++ search.visitedFiles filesystem levels (path ++ [candidate.2])).length
                rest := by
            rw [MeetsFile, List.length_append]
            exact ⟨fun both => both.2.resolve_left isFile, fun rest => ⟨reached, .inr rest⟩⟩
          rw [meets, List.flatMap_cons, ← List.append_assoc]
          dsimp only at later
          rw [← extended] at later
          exact later

variable {search filesystem} in
/-- The traversal of a directory whose subdirectories are known. -/
theorem traversePartitions_succ {levels : ℕ} {path : List String} (limit : Option ℕ)
    (notFile : isFileAt filesystem path = false)
    (below : ∀ candidate ∈ search.candidates filesystem path, ∀ remaining,
      search.traversePartitions filesystem levels (path ++ [candidate.2]) remaining =
        if isFileAt filesystem (path ++ [candidate.2]) then .error .osError
        else .ok (applyLimit remaining
          (search.visitedFiles filesystem levels (path ++ [candidate.2])))) :
    (search.MeetsFile filesystem levels path limit 0 (search.candidates filesystem path) →
      search.traversePartitions filesystem (levels + 1) path limit = .error .osError) ∧
    (¬search.MeetsFile filesystem levels path limit 0 (search.candidates filesystem path) →
      search.traversePartitions filesystem (levels + 1) path limit =
        .ok (applyLimit limit (search.visitedFiles filesystem (levels + 1) path))) := by
  have isEmpty : applyLimit limit ([] : List DirectoryEntry) = [] := by
    cases limit <;> simp [applyLimit]
  have loop := @foldlM_candidates search filesystem levels path limit _ below []
  rw [isEmpty] at loop
  simp only [traversePartitions, notFile, Bool.false_eq_true, if_false]
  exact loop

/-- No file has the name of a directory of the subtree that the search expects. -/
def OnlyDirectories : ℕ → List String → Prop
  | 0, path => isFileAt filesystem path = false
  | levels + 1, path => isFileAt filesystem path = false ∧
      ∀ candidate ∈ search.candidates filesystem path,
        OnlyDirectories levels (path ++ [candidate.2])

variable {search filesystem} in
theorem OnlyDirectories.notFile {levels : ℕ} {path : List String}
    (onlyDirectories : search.OnlyDirectories filesystem levels path) :
    isFileAt filesystem path = false := by
  cases levels with
  | zero => exact onlyDirectories
  | succ levels => exact onlyDirectories.1

variable {search filesystem} in
/-- Stopping early only cuts the traversal off, if no file is in its way. -/
theorem traversePartitions_eq {levels : ℕ} {path : List String}
    (onlyDirectories : search.OnlyDirectories filesystem levels path) (limit : Option ℕ) :
    search.traversePartitions filesystem levels path limit =
      .ok (applyLimit limit (search.visitedFiles filesystem levels path)) := by
  induction levels generalizing path limit with
  | zero =>
      simp only [traversePartitions, onlyDirectories.notFile, Bool.false_eq_true, if_false]
      rfl
  | succ levels ih =>
      apply (traversePartitions_succ limit onlyDirectories.1 ?_).2
      · have notMeets (candidates : List (ℕ × String)) (found : ℕ)
            (areDirectories : ∀ candidate ∈ candidates,
              isFileAt filesystem (path ++ [candidate.2]) = false) :
            ¬search.MeetsFile filesystem levels path limit found candidates := by
          induction candidates generalizing found with
          | nil => exact id
          | cons candidate rest ih =>
              rw [List.forall_mem_cons] at areDirectories
              rintro ⟨-, isFile | meets⟩
              · exact absurd isFile (by simp [areDirectories.1])
              · exact ih _ areDirectories.2 meets
        exact notMeets _ 0 fun candidate candidateMem =>
          (onlyDirectories.2 candidate candidateMem).notFile
      · intro candidate candidateMem remaining
        have directories := onlyDirectories.2 candidate candidateMem
        rw [ih directories, directories.notFile]
        rfl

end PartitionSearch

/-- The multiplier of the outer partition directory of a value. -/
def outerMultiplier (value : ℕ) : ℕ := (value + 1000000 - 1) / 1000000

/-- The multiplier of the inner partition directory of a value. -/
def innerMultiplier (value : ℕ) : ℕ :=
  (value - (outerMultiplier value - 1) * 1000000 + 1000 - 1) / 1000

/-- The capacity that the outer partition directory of a value is named after. -/
def outerCapacity (value : ℕ) : ℕ := outerMultiplier value * 1000 ^ 2

/-- The capacity that the inner partition directory of a value is named after. -/
def innerCapacity (value : ℕ) : ℕ := innerMultiplier value * 1000 ^ 1

/-- The partition directories of a value with base 1000 and two levels. -/
def partitionPath (value : ℕ) : List String :=
  [(outerCapacity value).repr, (innerCapacity value).repr]

/-- Values whose partition directories fit into 64 bits. -/
def Partitionable (value : ℕ) : Prop :=
  0 < value ∧ outerCapacity value ≤ unsignedInt64MaxValue

/-- The value that the partition directories of `value` stand for: a multiple of 1000. -/
def partitionCapacity (value : ℕ) : ℕ := (value + 999) / 1000 * 1000

theorem outerMultiplier_pos {value : ℕ} (positive : 0 < value) : 0 < outerMultiplier value := by
  unfold outerMultiplier
  omega

theorem innerMultiplier_pos {value : ℕ} (positive : 0 < value) : 0 < innerMultiplier value := by
  unfold innerMultiplier outerMultiplier
  omega

theorem innerMultiplier_le (value : ℕ) : innerMultiplier value ≤ 1000 := by
  unfold innerMultiplier outerMultiplier
  omega

theorem partitionCapacity_eq {value : ℕ} (positive : 0 < value) :
    (outerMultiplier value - 1) * 1000 ^ 2 + innerMultiplier value * 1000 ^ 1 =
      partitionCapacity value := by
  unfold innerMultiplier outerMultiplier partitionCapacity
  omega

theorem outerCapacity_mono {left right : ℕ} (le : left ≤ right) :
    outerCapacity left ≤ outerCapacity right :=
  Nat.mul_le_mul_right _ (Nat.div_le_div_right (by omega))

theorem partitionCapacity_mono {left right : ℕ} (le : left ≤ right) :
    partitionCapacity left ≤ partitionCapacity right :=
  Nat.mul_le_mul_right _ (Nat.div_le_div_right (by omega))

theorem exponentialPartitionTransform_eq {value : ℕ} (valid : Partitionable value) :
    exponentialPartitionTransform value 1000 2 = .ok (partitionPath value) := by
  have inner : innerCapacity value ≤ unsignedInt64MaxValue := by
    have small := innerMultiplier_le value
    unfold innerCapacity unsignedInt64MaxValue
    omega
  have values : exponentialPartitionValues 1000 2 value =
      [outerCapacity value, innerCapacity value] := by
    have square : (1000 : ℕ) ^ (1 + 1) = 1000000 := by norm_num
    have single : (1000 : ℕ) ^ (0 + 1) = 1000 := by norm_num
    simp only [exponentialPartitionValues, square, single, outerCapacity, innerCapacity,
      outerMultiplier, innerMultiplier]
  have notAbove : ([outerCapacity value, innerCapacity value].any
      fun partitionValue => partitionValue > unsignedInt64MaxValue) = false := by
    simp only [List.any_cons, List.any_nil, Bool.or_false, Bool.or_eq_false_iff,
      decide_eq_false_iff_not, gt_iff_lt, Nat.not_lt]
    exact ⟨valid.2, inner⟩
  rw [exponentialPartitionTransform, if_neg valid.1.ne', if_neg (by norm_num),
    if_neg (by norm_num)]
  simp only [values, notAbove, partitionPath, List.map_cons, List.map_nil, Bool.false_eq_true,
    if_false]

/-- A single directory of the upper of two levels parses to its capacity. -/
private theorem parseExponentialPartitions_single {base multiplier : ℕ} (positive : 0 < multiplier)
    (basePositive : 0 < base) (bounded : multiplier * base ^ 2 ≤ unsignedInt64MaxValue) :
    parseExponentialPartitions [(multiplier * base ^ 2).repr] base =
      some (multiplier * base ^ 2) := by
  have split : multiplier * base ^ 2 = multiplier * base * base ^ 1 := by
    ring
  have capacityPositive : 0 < multiplier * base ^ 2 :=
    Nat.mul_pos positive (Nat.pow_pos basePositive)
  have parsed : partitionMultiplier base 1 (multiplier * base ^ 2).repr =
      some (multiplier * base) := by
    rw [split]
    exact partitionMultiplier_repr (Nat.mul_pos positive basePositive) basePositive
  have multipliers : partitionMultipliers base [(multiplier * base ^ 2).repr] =
      some [multiplier * base] := by
    simp only [partitionMultipliers, List.length_nil, parsed, Option.pure_def,
      Option.bind_eq_bind, Option.bind_some]
  have total : totalContribution base [multiplier * base] 0 = some (multiplier * base ^ 2) := by
    rw [totalContribution]
    simp only [List.length_nil, if_true, Nat.zero_add, ← split]
    rw [if_neg (Nat.not_lt.mpr bounded), totalContribution]
  simp only [parseExponentialPartitions, multipliers, total, reduceCtorEq, if_false,
    Option.pure_def, Option.bind_eq_bind, Option.bind_some]
  rw [Nat.max_eq_right capacityPositive]

/-- A complete path of two directories parses to the sum of their contributions. -/
private theorem parseExponentialPartitions_pair {base outer inner : ℕ} (outerPositive : 0 < outer)
    (innerPositive : 0 < inner) (basePositive : 0 < base)
    (bounded : (outer - 1) * base ^ 2 + inner * base ^ 1 ≤ unsignedInt64MaxValue) :
    parseExponentialPartitions [(outer * base ^ 2).repr, (inner * base ^ 1).repr] base =
      some ((outer - 1) * base ^ 2 + inner * base ^ 1) := by
  have innerCapacityPositive : 0 < inner * base ^ 1 :=
    Nat.mul_pos innerPositive (Nat.pow_pos basePositive)
  have outerParsed : partitionMultiplier base 2 (outer * base ^ 2).repr = some outer :=
    partitionMultiplier_repr outerPositive basePositive
  have innerParsed : partitionMultiplier base 1 (inner * base ^ 1).repr = some inner :=
    partitionMultiplier_repr innerPositive basePositive
  have multipliers : partitionMultipliers base
      [(outer * base ^ 2).repr, (inner * base ^ 1).repr] = some [outer, inner] := by
    simp only [partitionMultipliers, List.length_cons, List.length_nil, Nat.zero_add,
      Nat.reduceAdd, outerParsed, innerParsed, Option.pure_def, Option.bind_eq_bind,
      Option.bind_some]
  have total : totalContribution base [outer, inner] 0 =
      some ((outer - 1) * base ^ 2 + inner * base ^ 1) := by
    rw [totalContribution]
    simp only [List.length_cons, List.length_nil, Nat.zero_add, Nat.reduceAdd, reduceCtorEq,
      if_false]
    rw [if_neg (by omega), totalContribution]
    simp only [List.length_nil, if_true, Nat.zero_add]
    rw [if_neg (Nat.not_lt.mpr bounded), totalContribution]
  simp only [parseExponentialPartitions, multipliers, total, reduceCtorEq, if_false,
    Option.pure_def, Option.bind_eq_bind, Option.bind_some]
  rw [Nat.max_eq_right (by omega)]

/-- The outer directory alone parses to its capacity. -/
theorem parseExponentialPartitions_outer {value : ℕ} (valid : Partitionable value) :
    parseExponentialPartitions [(outerCapacity value).repr] 1000 = some (outerCapacity value) :=
  parseExponentialPartitions_single (outerMultiplier_pos valid.1) (by norm_num) valid.2

/-- Both directories parse to the least multiple of 1000 that is at least the value. -/
theorem parseExponentialPartitions_partitionPath {value : ℕ} (valid : Partitionable value) :
    parseExponentialPartitions (partitionPath value) 1000 = some (partitionCapacity value) := by
  have arithmetic : ∀ outer inner greatest : ℕ, 0 < outer → inner ≤ 1000 →
      outer * 1000 ^ 2 ≤ greatest → (outer - 1) * 1000 ^ 2 + inner * 1000 ^ 1 ≤ greatest := by
    rintro (_ | outer) inner greatest positive small fits
    · simp at positive
    · rw [Nat.add_sub_cancel]
      linarith
  have bounded := arithmetic _ _ _ (outerMultiplier_pos valid.1) (innerMultiplier_le value) valid.2
  rw [← partitionCapacity_eq valid.1, partitionPath, outerCapacity, innerCapacity]
  exact @parseExponentialPartitions_pair 1000 (outerMultiplier value) (innerMultiplier value)
    (outerMultiplier_pos valid.1) (innerMultiplier_pos valid.1) (by norm_num) bounded

/-- A file with the value that decides its partition. -/
structure ValuedFile where
  value : ℕ
  name : String
  deriving DecidableEq

namespace ValuedFile

/-- The directory entry of a file that was written with `write_file_partitioned`. -/
def entry (file : ValuedFile) : DirectoryEntry where
  parent := partitionPath file.value
  name := file.name
  isFile := true

/-- The directory entry of a file that was written before its directory was partitioned. -/
def unpartitionedEntry (name : String) : DirectoryEntry where
  parent := []
  name := name
  isFile := true

/-- The entry of the outer partition directory. -/
def outerDirectory (value : ℕ) : DirectoryEntry where
  parent := []
  name := (outerCapacity value).repr
  isFile := false

/-- The entry of the inner partition directory. -/
def innerDirectory (value : ℕ) : DirectoryEntry where
  parent := [(outerCapacity value).repr]
  name := (innerCapacity value).repr
  isFile := false

theorem outerDirectory_ne_entry (value : ℕ) (file : ValuedFile) :
    outerDirectory value ≠ file.entry := by
  intro same
  cases congrArg DirectoryEntry.isFile same

theorem innerDirectory_ne_entry (value : ℕ) (file : ValuedFile) :
    innerDirectory value ≠ file.entry := by
  intro same
  cases congrArg DirectoryEntry.isFile same

end ValuedFile

open ValuedFile

/-- `write_file_partitioned`: create the missing directories and replace the file. -/
def FileSystem.writeFilePartitioned (filesystem : FileSystem) (file : ValuedFile) : FileSystem :=
  List.insert (outerDirectory file.value)
    (List.insert (innerDirectory file.value) (List.insert file.entry filesystem))

/-- Deleting a file leaves the directories in place. -/
def FileSystem.deleteFile (filesystem : FileSystem) (file : ValuedFile) : FileSystem :=
  filesystem.filter (· ≠ file.entry)

/-- The filesystem holds exactly the given files, where `write_file_partitioned` puts them. -/
structure Partitioned (filesystem : FileSystem) (files : List ValuedFile) : Prop where
  nodup : filesystem.Nodup
  nodupFiles : files.Nodup
  valid : ∀ file ∈ files, Partitionable file.value
  isFile_iff : ∀ entry, entry ∈ filesystem ∧ entry.isFile ↔ ∃ file ∈ files, entry = file.entry
  isDirectory : ∀ entry ∈ filesystem, entry.isFile = false →
    ∃ value, Partitionable value ∧ (entry = outerDirectory value ∨ entry = innerDirectory value)
  outerPresent : ∀ file ∈ files, outerDirectory file.value ∈ filesystem
  innerPresent : ∀ file ∈ files, innerDirectory file.value ∈ filesystem

namespace Partitioned

theorem nil : Partitioned [] [] where
  nodup := List.nodup_nil
  nodupFiles := List.nodup_nil
  valid := by simp
  isFile_iff := by simp
  isDirectory := by simp
  outerPresent := by simp
  innerPresent := by simp

variable {filesystem : FileSystem} {files : List ValuedFile}

/-- Writing a file adds it. -/
theorem write (partitioned : Partitioned filesystem files) {file : ValuedFile}
    (valid : Partitionable file.value) :
    Partitioned (FileSystem.writeFilePartitioned filesystem file) (List.insert file files) where
  nodup := ((partitioned.nodup.insert).insert).insert
  nodupFiles := partitioned.nodupFiles.insert
  valid := by
    intro other otherMem
    rcases List.mem_insert_iff.mp otherMem with rfl | otherMem
    · exact valid
    · exact partitioned.valid other otherMem
  isFile_iff := by
    intro entry
    simp only [FileSystem.writeFilePartitioned, List.mem_insert_iff]
    constructor
    · rintro ⟨rfl | rfl | rfl | entryMem, isFile⟩
      · simp [outerDirectory] at isFile
      · simp [innerDirectory] at isFile
      · exact ⟨file, Or.inl rfl, rfl⟩
      · rcases (partitioned.isFile_iff entry).mp ⟨entryMem, isFile⟩ with ⟨other, otherMem, isEntry⟩
        exact ⟨other, Or.inr otherMem, isEntry⟩
    · rintro ⟨other, rfl | otherMem, rfl⟩
      · exact ⟨Or.inr (Or.inr (Or.inl rfl)), rfl⟩
      · have present := (partitioned.isFile_iff other.entry).mpr ⟨other, otherMem, rfl⟩
        exact ⟨Or.inr (Or.inr (Or.inr present.1)), rfl⟩
  isDirectory := by
    intro entry entryMem notFile
    simp only [FileSystem.writeFilePartitioned, List.mem_insert_iff] at entryMem
    rcases entryMem with isOuter | isInner | rfl | entryMem
    · exact ⟨file.value, valid, Or.inl isOuter⟩
    · exact ⟨file.value, valid, Or.inr isInner⟩
    · simp [ValuedFile.entry] at notFile
    · exact partitioned.isDirectory entry entryMem notFile
  outerPresent := by
    intro other otherMem
    simp only [FileSystem.writeFilePartitioned, List.mem_insert_iff]
    rcases List.mem_insert_iff.mp otherMem with rfl | otherMem
    · exact Or.inl rfl
    · exact Or.inr (Or.inr (Or.inr (partitioned.outerPresent other otherMem)))
  innerPresent := by
    intro other otherMem
    simp only [FileSystem.writeFilePartitioned, List.mem_insert_iff]
    rcases List.mem_insert_iff.mp otherMem with rfl | otherMem
    · exact Or.inr (Or.inl rfl)
    · exact Or.inr (Or.inr (Or.inr (partitioned.innerPresent other otherMem)))

/-- Deleting a file removes it and may leave empty partition directories. -/
theorem delete (partitioned : Partitioned filesystem files) (file : ValuedFile) :
    Partitioned (FileSystem.deleteFile filesystem file)
      (files.filter fun other => other.entry ≠ file.entry) where
  nodup := partitioned.nodup.filter _
  nodupFiles := partitioned.nodupFiles.filter _
  valid := fun other otherMem => partitioned.valid other (List.mem_of_mem_filter otherMem)
  isFile_iff := by
    intro entry
    simp only [FileSystem.deleteFile, List.mem_filter, decide_eq_true_eq]
    constructor
    · rintro ⟨⟨entryMem, isOther⟩, isFile⟩
      rcases (partitioned.isFile_iff entry).mp ⟨entryMem, isFile⟩ with ⟨other, otherMem, rfl⟩
      exact ⟨other, ⟨otherMem, isOther⟩, rfl⟩
    · rintro ⟨other, ⟨otherMem, isOther⟩, rfl⟩
      have present := (partitioned.isFile_iff other.entry).mpr ⟨other, otherMem, rfl⟩
      exact ⟨⟨present.1, isOther⟩, rfl⟩
  isDirectory := fun entry entryMem notFile =>
    partitioned.isDirectory entry (List.mem_of_mem_filter entryMem) notFile
  outerPresent := by
    intro other otherMem
    have present := partitioned.outerPresent other (List.mem_of_mem_filter otherMem)
    simp [FileSystem.deleteFile, present, outerDirectory_ne_entry]
  innerPresent := by
    intro other otherMem
    have present := partitioned.innerPresent other (List.mem_of_mem_filter otherMem)
    simp [FileSystem.deleteFile, present, innerDirectory_ne_entry]

end Partitioned

/--
A partitioned directory that also holds files that were left at its top, beside the
partition directories.
-/
structure Mixed (filesystem : FileSystem) (files : List ValuedFile) (unpartitioned : List String) :
    Prop where
  nodup : filesystem.Nodup
  valid : ∀ file ∈ files, Partitionable file.value
  isFile_iff : ∀ entry, entry ∈ filesystem ∧ entry.isFile ↔
    (∃ file ∈ files, entry = file.entry) ∨ ∃ name ∈ unpartitioned, entry = unpartitionedEntry name
  isDirectory : ∀ entry ∈ filesystem, entry.isFile = false →
    ∃ value, Partitionable value ∧ (entry = outerDirectory value ∨ entry = innerDirectory value)
  outerPresent : ∀ file ∈ files, outerDirectory file.value ∈ filesystem
  innerPresent : ∀ file ∈ files, innerDirectory file.value ∈ filesystem
  apart : ∀ name ∈ unpartitioned, ∀ value,
    outerDirectory value ∈ filesystem ∨ innerDirectory value ∈ filesystem →
      name ≠ (outerCapacity value).repr

theorem Partitioned.mixed {filesystem : FileSystem} {files : List ValuedFile}
    (partitioned : Partitioned filesystem files) : Mixed filesystem files [] where
  nodup := partitioned.nodup
  valid := partitioned.valid
  isFile_iff := by
    intro entry
    simpa using partitioned.isFile_iff entry
  isDirectory := partitioned.isDirectory
  outerPresent := partitioned.outerPresent
  innerPresent := partitioned.innerPresent
  apart := by simp

theorem mem_listDirectory {filesystem : FileSystem} {path : List String}
    {entry : DirectoryEntry} :
    entry ∈ listDirectory filesystem path ↔
      entry ∈ filesystem ∧ entry.parent = path ∧ hasExcludedPrefix entry.name = false := by
  simp [listDirectory, List.mem_insertionSort]

namespace Mixed

variable {filesystem : FileSystem} {files : List ValuedFile} {unpartitioned : List String}

/-- No directory has the name of a file beside it. -/
theorem not_isFile_of_name_eq (mixed : Mixed filesystem files unpartitioned)
    {left right : DirectoryEntry} (leftMem : left ∈ filesystem) (rightMem : right ∈ filesystem)
    (sameParent : left.parent = right.parent) (sameName : left.name = right.name)
    (notFile : right.isFile = false) : left.isFile = false := by
  by_contra isFile
  rw [Bool.not_eq_false] at isFile
  rcases mixed.isDirectory right rightMem notFile with ⟨value, valid, rfl | rfl⟩
  · rcases (mixed.isFile_iff left).mp ⟨leftMem, isFile⟩ with ⟨file, _, rfl⟩ | ⟨name, nameMem, rfl⟩
    · simp [ValuedFile.entry, partitionPath, outerDirectory] at sameParent
    · exact mixed.apart name nameMem value (.inl rightMem) sameName
  · rcases (mixed.isFile_iff left).mp ⟨leftMem, isFile⟩ with ⟨file, _, rfl⟩ | ⟨file, _, rfl⟩
    · simp [ValuedFile.entry, partitionPath, innerDirectory] at sameParent
    · simp [unpartitionedEntry, innerDirectory] at sameParent

/-- A directory holds one entry of a name. -/
theorem eq_of_name_eq (mixed : Mixed filesystem files unpartitioned) {left right : DirectoryEntry}
    (leftMem : left ∈ filesystem) (rightMem : right ∈ filesystem)
    (sameParent : left.parent = right.parent) (sameName : left.name = right.name) :
    left = right := by
  have isFile : left.isFile = right.isFile := by
    cases leftIsFile : left.isFile with
    | false =>
        exact (mixed.not_isFile_of_name_eq rightMem leftMem sameParent.symm sameName.symm
          leftIsFile).symm
    | true =>
        cases rightIsFile : right.isFile with
        | true => rfl
        | false =>
            have notFile := mixed.not_isFile_of_name_eq leftMem rightMem sameParent sameName
              rightIsFile
            exact leftIsFile.symm.trans notFile
  cases left
  cases right
  simp_all

/-- The entries of a directory come in strictly descending name order. -/
theorem listDirectory_descending (mixed : Mixed filesystem files unpartitioned)
    (path : List String) :
    (listDirectory filesystem path).Pairwise fun left right => right.name < left.name := by
  have descending : (listDirectory filesystem path).Pairwise NameDescending :=
    List.pairwise_insertionSort _ _
  have distinct : (listDirectory filesystem path).Pairwise (· ≠ ·) :=
    (List.perm_insertionSort _ _).nodup_iff.mpr (mixed.nodup.filter _)
  refine (descending.and distinct).imp_of_mem ?_
  intro left right leftMem rightMem related
  rw [mem_listDirectory] at leftMem rightMem
  refine lt_of_le_of_ne related.1 fun sameName => related.2 ?_
  exact mixed.eq_of_name_eq leftMem.1 rightMem.1
    (leftMem.2.1.trans rightMem.2.1.symm) sameName.symm

end Mixed

/-- File names from which the value can be read. -/
def ReadableNames (partitionFileParser : String → Option ℕ) (files : List ValuedFile) : Prop :=
  ∀ file ∈ files, partitionFileParser file.name = some file.value

/-- File names from which the value can be read and that sort as the values do. -/
structure NamedByValue (partitionFileParser : String → Option ℕ) (files : List ValuedFile) :
    Prop where
  parsed : ∀ file ∈ files, partitionFileParser file.name = some file.value
  included : ∀ file ∈ files, hasExcludedPrefix file.name = false
  ordered : ∀ left ∈ files, ∀ right ∈ files, left.value < right.value → left.name < right.name

/-- The search for the files between two values, where the lower one may be left out. -/
def searchBetween (start : Option ℕ) (value : ℕ) (partitionFileParser : String → Option ℕ) :
    PartitionSearch where
  targetPartitions := partitionPath value
  partitionValue := value
  partitionStartValue := start
  targetStartPartitions := start.map partitionPath
  partitionDirParser := fun partitionDirs => parseExponentialPartitions partitionDirs 1000
  partitionFileParser := partitionFileParser

/-- The values that a search between two values is about. -/
def InRange (start : Option ℕ) (value fileValue : ℕ) : Prop :=
  fileValue ≤ value ∧ start.all (· ≤ fileValue)

instance (start : Option ℕ) (value : ℕ) : DecidablePred (InRange start value) :=
  fun fileValue => inferInstanceAs (Decidable (fileValue ≤ value ∧ start.all (· ≤ fileValue)))

theorem partitionPath_eq_of_capacity_eq {left right : ℕ} (leftPositive : 0 < left)
    (rightPositive : 0 < right) (same : partitionCapacity left = partitionCapacity right) :
    partitionPath left = partitionPath right := by
  have outer : outerMultiplier left = outerMultiplier right := by
    unfold partitionCapacity at same
    unfold outerMultiplier
    omega
  have inner : innerMultiplier left = innerMultiplier right := by
    rw [← partitionCapacity_eq leftPositive, ← partitionCapacity_eq rightPositive, outer] at same
    generalize innerMultiplier left = leftInner at same ⊢
    generalize innerMultiplier right = rightInner at same ⊢
    generalize outerMultiplier right = rightOuter at same
    omega
  rw [partitionPath, partitionPath, outerCapacity, outerCapacity, innerCapacity, innerCapacity,
    outer, inner]

theorem capacity_eq_of_partitionPath_eq {left right : ℕ} (leftValid : Partitionable left)
    (rightValid : Partitionable right) (same : partitionPath left = partitionPath right) :
    partitionCapacity left = partitionCapacity right := by
  have parsed := parseExponentialPartitions_partitionPath leftValid
  rw [same, parseExponentialPartitions_partitionPath rightValid, Option.some.injEq] at parsed
  exact parsed.symm

/-- The outer directory of a value follows from the inner one. -/
theorem outerCapacity_mono_of_capacity {left right : ℕ}
    (capacities : partitionCapacity left ≤ partitionCapacity right) :
    outerCapacity left ≤ outerCapacity right := by
  apply Nat.mul_le_mul_right
  unfold partitionCapacity at capacities
  unfold outerMultiplier
  omega

/-- The order in which the search visits the files of the partition directories. -/
def Precedes (left right : ValuedFile) : Prop :=
  partitionCapacity right.value < partitionCapacity left.value ∨
    partitionCapacity right.value = partitionCapacity left.value ∧ right.name < left.name

instance : DecidableRel Precedes :=
  fun left right => inferInstanceAs (Decidable (partitionCapacity right.value <
    partitionCapacity left.value ∨ partitionCapacity right.value = partitionCapacity left.value ∧
      right.name < left.name))

theorem Precedes.asymm {left right : ValuedFile} (precedes : Precedes left right) :
    ¬Precedes right left := by
  rcases precedes with less | ⟨same, less⟩
  · rintro (greater | ⟨same, _⟩) <;> omega
  · rintro (greater | ⟨_, greater⟩)
    · omega
    · exact lt_asymm less greater

section Search

variable {filesystem : FileSystem} {files : List ValuedFile} {unpartitioned : List String}
  {start : Option ℕ} {value : ℕ} {partitionFileParser : String → Option ℕ}

/-- The capacity against which the inner partition directories are compared. -/
theorem targetValue_inner (valid : Partitionable value) (outerName : String) :
    (searchBetween start value partitionFileParser).targetValue [outerName] =
      partitionCapacity value := by
  change (parseExponentialPartitions (partitionPath value) 1000).getD 0 = _
  rw [parseExponentialPartitions_partitionPath valid, Option.getD_some]

/-- The capacity against which the outer partition directories are compared. -/
theorem targetValue_outer (valid : Partitionable value) :
    (searchBetween start value partitionFileParser).targetValue [] = outerCapacity value := by
  have parsed : (searchBetween start value partitionFileParser).partitionDirParser
      ((searchBetween start value partitionFileParser).targetPartitions.take 1) =
        some (outerCapacity value) :=
    parseExponentialPartitions_outer valid
  rw [PartitionSearch.targetValue, List.length_nil, Nat.zero_add, parsed, Option.getD_some]

theorem targetStartValue_inner (startValid : ∀ first ∈ start, Partitionable first)
    (outerName : String) :
    (searchBetween start value partitionFileParser).targetStartValue [outerName] =
      start.map partitionCapacity := by
  cases start with
  | none => rfl
  | some first =>
      exact PartitionSearch.targetStartValue_eq rfl Nat.one_lt_two
        (parseExponentialPartitions_partitionPath (startValid first rfl))

theorem targetStartValue_outer (startValid : ∀ first ∈ start, Partitionable first) :
    (searchBetween start value partitionFileParser).targetStartValue [] =
      start.map outerCapacity := by
  cases start with
  | none => rfl
  | some first =>
      exact PartitionSearch.targetStartValue_eq rfl Nat.zero_lt_two
        (parseExponentialPartitions_outer (startValid first rfl))

theorem candidate_eq_some_iff {path : List String} {item : DirectoryEntry}
    {found : ℕ × String} :
    (searchBetween start value partitionFileParser).candidate path item = some found ↔
      item.name = found.2 ∧
      parseExponentialPartitions (path ++ [found.2]) 1000 = some found.1 ∧
      found.1 ≤ (searchBetween start value partitionFileParser).targetValue path ∧
      ((searchBetween start value partitionFileParser).targetStartValue path).all
        (· ≤ found.1) := by
  rcases found with ⟨parsedValue, name⟩
  have isParsed : (searchBetween start value partitionFileParser).partitionDirParser
      (path ++ [item.name]) = parseExponentialPartitions (path ++ [item.name]) 1000 := rfl
  simp only [PartitionSearch.candidate, isParsed]
  constructor
  · intro isCandidate
    cases parsed : parseExponentialPartitions (path ++ [item.name]) 1000 with
    | none => simp [parsed] at isCandidate
    | some itemValue =>
        simp only [parsed, Option.ite_none_right_eq_some, Option.some.injEq,
          Prod.mk.injEq] at isCandidate
        rcases isCandidate with ⟨inRange, rfl, rfl⟩
        exact ⟨rfl, parsed, inRange⟩
  · rintro ⟨rfl, parsed, inRange⟩
    simp only [parsed]
    exact if_pos inRange

/-- The candidates of a directory are its subdirectories whose parsed value is in range. -/
theorem mem_candidates {path : List String} {found : ℕ × String} :
    found ∈ (searchBetween start value partitionFileParser).candidates filesystem path ↔
      (∃ item ∈ listDirectory filesystem path, item.name = found.2) ∧
      parseExponentialPartitions (path ++ [found.2]) 1000 = some found.1 ∧
      found.1 ≤ (searchBetween start value partitionFileParser).targetValue path ∧
      ((searchBetween start value partitionFileParser).targetStartValue path).all
        (· ≤ found.1) := by
  simp only [PartitionSearch.candidates, List.mem_insertionSort, List.mem_filterMap,
    candidate_eq_some_iff]
  constructor
  · rintro ⟨item, itemMem, isName, parsed⟩
    exact ⟨⟨item, itemMem, isName⟩, parsed⟩
  · rintro ⟨⟨item, itemMem, isName⟩, parsed⟩
    exact ⟨item, itemMem, isName, parsed⟩

/--
The candidates of a directory come in descending order of their parsed values, and those
of one value in descending order of their names.
-/
theorem Mixed.candidates_descending (mixed : Mixed filesystem files unpartitioned)
    (path : List String) :
    ((searchBetween start value partitionFileParser).candidates filesystem path).Pairwise
      fun left right => right.1 < left.1 ∨ right.1 = left.1 ∧ right.2 < left.2 := by
  have found : ((listDirectory filesystem path).filterMap
      ((searchBetween start value partitionFileParser).candidate path)).Pairwise
        fun left right => right.2 < left.2 := by
    rw [List.pairwise_filterMap]
    refine (mixed.listDirectory_descending path).imp ?_
    intro left right less leftFound isLeft rightFound isRight
    rw [candidate_eq_some_iff] at isLeft isRight
    rwa [isLeft.1, isRight.1] at less
  have sorted := @pairwise_insertionSort_stable _ ℕᵒᵈ _ (fun found => OrderDual.toDual found.1) _ _
    found
  refine sorted.imp ?_
  rintro left right (less | ⟨same, less⟩)
  · exact .inl less
  · exact .inr ⟨(OrderDual.toDual_inj.mp same).symm, less⟩

/-- The files of a leaf partition that the search keeps. -/
theorem mem_leafFiles {path : List String} {entry : DirectoryEntry} :
    entry ∈ (searchBetween start value partitionFileParser).leafFiles filesystem path ↔
      entry ∈ listDirectory filesystem path ∧
        (path = partitionPath value → ∃ fileValue, partitionFileParser entry.name =
          some fileValue ∧ fileValue ≤ value) ∧
        ∀ first ∈ start, path = partitionPath first → ∃ fileValue,
          partitionFileParser entry.name = some fileValue ∧ first ≤ fileValue := by
  simp only [PartitionSearch.leafFiles]
  cases start with
  | none =>
      by_cases boundary : path = partitionPath value
      · cases parsed : partitionFileParser entry.name <;>
          simp [searchBetween, boundary, PartitionSearch.keepsBoundaryFile, parsed]
      · simp [searchBetween, boundary]
  | some first =>
      by_cases boundary : path = partitionPath value
      · subst boundary
        by_cases startBoundary : partitionPath value = partitionPath first
        · cases parsed : partitionFileParser entry.name <;>
            simp [searchBetween, startBoundary, PartitionSearch.keepsBoundaryFile, parsed]
        · cases parsed : partitionFileParser entry.name <;>
            simp [searchBetween, startBoundary, PartitionSearch.keepsBoundaryFile, parsed]
      · by_cases startBoundary : path = partitionPath first
        · subst startBoundary
          cases parsed : partitionFileParser entry.name <;>
            simp [searchBetween, boundary, PartitionSearch.keepsBoundaryFile, parsed]
        · simp [searchBetween, boundary, startBoundary]

theorem visitedFiles_two :
    (searchBetween start value partitionFileParser).visitedFiles filesystem 2 [] =
      ((searchBetween start value partitionFileParser).candidates filesystem []).flatMap
        fun outer =>
          ((searchBetween start value partitionFileParser).candidates filesystem
              [outer.2]).flatMap fun inner =>
            (searchBetween start value partitionFileParser).leafFiles filesystem
              [outer.2, inner.2] := rfl

/-- A number begins with a digit, so its name is not excluded. -/
theorem hasExcludedPrefix_of_readDecimal {name : String} {number : ℕ}
    (isNumber : readDecimal name.toList = some number) : hasExcludedPrefix name = false := by
  cases chars : name.toList with
  | nil => simp [readDecimal, chars] at isNumber
  | cons first rest =>
      have isDigit : decimalDigit first ≠ none := by
        intro noDigit
        simp [readDecimal, chars, noDigit] at isNumber
      have notDot : first ≠ '.' := by
        rintro rfl
        exact isDigit (by decide)
      have notUnderscore : first ≠ '_' := by
        rintro rfl
        exact isDigit (by decide)
      simp [hasExcludedPrefix, chars, notDot, notUnderscore]

theorem hasExcludedPrefix_repr (number : ℕ) : hasExcludedPrefix number.repr = false :=
  hasExcludedPrefix_of_readDecimal (by simp : _ = some number)

theorem hasExcludedPrefix_of_parsed {name : String} {base capacity : ℕ}
    (parsed : parseExponentialPartitions [name] base = some capacity) :
    hasExcludedPrefix name = false := by
  cases isNumber : readDecimal name.toList with
  | none =>
      simp [parseExponentialPartitions, partitionMultipliers, partitionMultiplier, isNumber]
        at parsed
  | some number => exact hasExcludedPrefix_of_readDecimal isNumber

/-- A leaf of the search holds the files of its partition path. -/
theorem Mixed.mem_leafFiles_file (mixed : Mixed filesystem files unpartitioned)
    {outerName innerName : String} {entry : DirectoryEntry}
    (entryMem : entry ∈ (searchBetween start value partitionFileParser).leafFiles filesystem
      [outerName, innerName]) :
    ∃ file ∈ files, entry = file.entry ∧ partitionPath file.value = [outerName, innerName] := by
  rw [mem_leafFiles, mem_listDirectory] at entryMem
  rcases entryMem with ⟨⟨entryMem, isParent, _⟩, _⟩
  cases isFile : entry.isFile with
  | true =>
      rcases (mixed.isFile_iff entry).mp ⟨entryMem, isFile⟩ with
        ⟨file, fileMem, rfl⟩ | ⟨name, _, rfl⟩
      · exact ⟨file, fileMem, rfl, isParent⟩
      · simp [unpartitionedEntry] at isParent
  | false =>
      rcases mixed.isDirectory entry entryMem isFile with ⟨other, _, rfl | rfl⟩
      · simp [outerDirectory] at isParent
      · simp [innerDirectory] at isParent

/--
The search finds a file of the partition directories exactly when its value is in range
and its name is not excluded.
-/
theorem Mixed.mem_visitedFiles (mixed : Mixed filesystem files unpartitioned)
    (readable : ReadableNames partitionFileParser files) (valid : Partitionable value)
    (startValid : ∀ first ∈ start, Partitionable first) {entry : DirectoryEntry} :
    entry ∈ (searchBetween start value partitionFileParser).visitedFiles filesystem 2 [] ↔
      ∃ file ∈ files, hasExcludedPrefix file.name = false ∧ InRange start value file.value ∧
        entry = file.entry := by
  simp only [visitedFiles_two, List.mem_flatMap]
  constructor
  · rintro ⟨outer, _, inner, innerMem, entryMem⟩
    rcases mixed.mem_leafFiles_file entryMem with ⟨file, fileMem, rfl, path⟩
    have isValue := readable file fileMem
    rw [mem_leafFiles, ← path, mem_listDirectory] at entryMem
    rcases entryMem with ⟨⟨_, _, included⟩, upper, lower⟩
    rw [mem_candidates, List.singleton_append, ← path,
      parseExponentialPartitions_partitionPath (mixed.valid file fileMem), Option.some.injEq,
      targetValue_inner valid, targetStartValue_inner startValid] at innerMem
    rcases innerMem with ⟨_, capacity, atMost, atLeast⟩
    rw [← capacity] at atMost atLeast
    -- In the two boundary partitions the files are filtered one by one.
    refine ⟨file, fileMem, included, ⟨?_, ?_⟩, rfl⟩
    · by_cases same : partitionCapacity file.value = partitionCapacity value
      · rcases upper (partitionPath_eq_of_capacity_eq (mixed.valid file fileMem).1 valid.1 same)
          with ⟨fileValue, parsed, fits⟩
        change partitionFileParser file.name = some fileValue at parsed
        rw [isValue, Option.some.injEq] at parsed
        exact parsed ▸ fits
      · unfold partitionCapacity at same atMost
        omega
    · cases start with
      | none => rfl
      | some first =>
          simp only [Option.map_some, Option.all_some, decide_eq_true_eq] at atLeast ⊢
          by_cases same : partitionCapacity file.value = partitionCapacity first
          · rcases lower first rfl (partitionPath_eq_of_capacity_eq (mixed.valid file fileMem).1
              (startValid first rfl).1 same) with ⟨fileValue, parsed, fits⟩
            change partitionFileParser file.name = some fileValue at parsed
            rw [isValue, Option.some.injEq] at parsed
            exact parsed ▸ fits
          · unfold partitionCapacity at same atLeast
            omega
  · rintro ⟨file, fileMem, included, ⟨fits, aboveStart⟩, rfl⟩
    have fileValid := mixed.valid file fileMem
    refine ⟨(outerCapacity file.value, (outerCapacity file.value).repr),
      ?_, (partitionCapacity file.value, (innerCapacity file.value).repr), ?_, ?_⟩
    · rw [mem_candidates, targetValue_outer valid, targetStartValue_outer startValid]
      refine ⟨⟨outerDirectory file.value, ?_, rfl⟩, parseExponentialPartitions_outer fileValid,
        outerCapacity_mono fits, ?_⟩
      · rw [mem_listDirectory]
        exact ⟨mixed.outerPresent file fileMem, rfl, hasExcludedPrefix_repr _⟩
      · cases start with
        | none => rfl
        | some first =>
            rw [Option.all_some, decide_eq_true_iff] at aboveStart
            rw [Option.map_some, Option.all_some, decide_eq_true_iff]
            exact outerCapacity_mono aboveStart
    · rw [mem_candidates, targetValue_inner valid, targetStartValue_inner startValid]
      refine ⟨⟨innerDirectory file.value, ?_, rfl⟩,
        parseExponentialPartitions_partitionPath fileValid, partitionCapacity_mono fits, ?_⟩
      · rw [mem_listDirectory]
        exact ⟨mixed.innerPresent file fileMem, rfl, hasExcludedPrefix_repr _⟩
      · cases start with
        | none => rfl
        | some first =>
            rw [Option.all_some, decide_eq_true_iff] at aboveStart
            rw [Option.map_some, Option.all_some, decide_eq_true_iff]
            exact partitionCapacity_mono aboveStart
    · rw [mem_leafFiles, mem_listDirectory]
      have present := (mixed.isFile_iff file.entry).mpr (Or.inl ⟨file, fileMem, rfl⟩)
      refine ⟨⟨present.1, rfl, included⟩, fun _ => ⟨file.value, readable file fileMem, fits⟩, ?_⟩
      rintro first rfl _
      exact ⟨file.value, readable file fileMem, by simpa using aboveStart⟩

/-- Above the third level, the files are the ones at the top. -/
theorem Mixed.isFileAt_iff (mixed : Mixed filesystem files unpartitioned) {path : List String}
    (short : path.length < 3) :
    isFileAt filesystem path = true ↔ ∃ name ∈ unpartitioned, path = [name] := by
  rw [isFileAt, List.any_eq_true]
  constructor
  · rintro ⟨entry, entryMem, isPath⟩
    simp only [Bool.and_eq_true, beq_iff_eq] at isPath
    rcases isPath with ⟨isFile, rfl⟩
    rcases (mixed.isFile_iff entry).mp ⟨entryMem, isFile⟩ with ⟨file, _, rfl⟩ | ⟨name, nameMem, rfl⟩
    · simp [ValuedFile.entry, partitionPath] at short
    · exact ⟨name, nameMem, rfl⟩
  · rintro ⟨name, nameMem, rfl⟩
    have present := (mixed.isFile_iff _).mpr (.inr ⟨name, nameMem, rfl⟩)
    exact ⟨unpartitionedEntry name, present.1, by simp [unpartitionedEntry]⟩

/-- No file has a partition directory's place below an outer partition directory. -/
theorem Mixed.onlyDirectories (mixed : Mixed filesystem files unpartitioned) {outerName : String}
    (notFile : outerName ∉ unpartitioned) :
    (searchBetween start value partitionFileParser).OnlyDirectories filesystem 1 [outerName] := by
  have notFileAt {path : List String} (short : path.length < 3)
      (notTop : ∀ name ∈ unpartitioned, path ≠ [name]) : isFileAt filesystem path = false := by
    rw [Bool.eq_false_iff, ne_eq, mixed.isFileAt_iff short]
    rintro ⟨name, nameMem, isName⟩
    exact notTop name nameMem isName
  constructor
  · apply notFileAt (by simp)
    rintro name nameMem isName
    rw [List.cons.injEq] at isName
    exact notFile (isName.1 ▸ nameMem)
  · intro candidate _
    exact notFileAt (by simp) (by simp)

/-- The search visits the files in the order of `Precedes`. -/
theorem Mixed.visitedFiles_precedes (mixed : Mixed filesystem files unpartitioned) :
    ((searchBetween start value partitionFileParser).visitedFiles filesystem 2 []).Pairwise
      fun left right => ∀ leftFile ∈ files, ∀ rightFile ∈ files,
        left = leftFile.entry → right = rightFile.entry → Precedes leftFile rightFile := by
  rw [visitedFiles_two, List.pairwise_flatMap]
  constructor
  · intro outer _
    rw [List.pairwise_flatMap]
    constructor
    · intro inner _
      have descending : ((searchBetween start value partitionFileParser).leafFiles filesystem
          [outer.2, inner.2]).Pairwise fun left right => right.name < left.name := by
        simp only [PartitionSearch.leafFiles]
        split
        · exact (mixed.listDirectory_descending _).filter _
        · exact mixed.listDirectory_descending _
      refine descending.imp_of_mem ?_
      rintro left right leftMem rightMem less leftFile leftFileMem rightFile rightFileMem rfl rfl
      rcases mixed.mem_leafFiles_file leftMem with ⟨_, _, leftSame, leftPath⟩
      rcases mixed.mem_leafFiles_file rightMem with ⟨_, _, rightSame, rightPath⟩
      have samePath : partitionPath rightFile.value = partitionPath leftFile.value := by
        have leftParent := congrArg DirectoryEntry.parent leftSame
        have rightParent := congrArg DirectoryEntry.parent rightSame
        exact (rightParent.trans rightPath).trans (leftParent.trans leftPath).symm
      exact Or.inr ⟨capacity_eq_of_partitionPath_eq (mixed.valid rightFile rightFileMem)
        (mixed.valid leftFile leftFileMem) samePath, less⟩
    · -- Inner directories with a smaller capacity are visited later.
      refine (mixed.candidates_descending [outer.2]).imp_of_mem ?_
      rintro left right leftMem rightMem less leftEntry leftEntryMem rightEntry rightEntryMem
        leftFile leftFileMem rightFile rightFileMem rfl rfl
      rcases mixed.mem_leafFiles_file leftEntryMem with ⟨_, _, leftSame, leftPath⟩
      rcases mixed.mem_leafFiles_file rightEntryMem with ⟨_, _, rightSame, rightPath⟩
      have leftParent := congrArg DirectoryEntry.parent leftSame
      have rightParent := congrArg DirectoryEntry.parent rightSame
      change partitionPath leftFile.value = partitionPath _ at leftParent
      change partitionPath rightFile.value = partitionPath _ at rightParent
      rw [mem_candidates, List.singleton_append, ← leftPath, ← leftParent,
        parseExponentialPartitions_partitionPath (mixed.valid leftFile leftFileMem),
        Option.some.injEq] at leftMem
      rw [mem_candidates, List.singleton_append, ← rightPath, ← rightParent,
        parseExponentialPartitions_partitionPath (mixed.valid rightFile rightFileMem),
        Option.some.injEq] at rightMem
      rcases less with less | ⟨same, differs⟩
      · apply Or.inl
        rw [leftMem.2.1, rightMem.2.1]
        exact less
      · -- Inner directories of one capacity are the same.
        have samePath := partitionPath_eq_of_capacity_eq (mixed.valid rightFile rightFileMem).1
          (mixed.valid leftFile leftFileMem).1
          (rightMem.2.1.trans (same.trans leftMem.2.1.symm))
        rw [rightParent, leftParent, rightPath, leftPath] at samePath
        simp only [List.cons.injEq, and_true, true_and] at samePath
        exact absurd differs (by simp [samePath])
  · -- Outer directories with a smaller capacity are visited later.
    refine (mixed.candidates_descending []).imp_of_mem ?_
    rintro left right leftMem rightMem less leftEntry leftEntryMem rightEntry rightEntryMem
      leftFile leftFileMem rightFile rightFileMem rfl rfl
    rcases List.mem_flatMap.mp leftEntryMem with ⟨leftInner, _, leftEntryMem⟩
    rcases List.mem_flatMap.mp rightEntryMem with ⟨rightInner, _, rightEntryMem⟩
    rcases mixed.mem_leafFiles_file leftEntryMem with ⟨_, _, leftSame, leftPath⟩
    rcases mixed.mem_leafFiles_file rightEntryMem with ⟨_, _, rightSame, rightPath⟩
    have leftParent := (congrArg DirectoryEntry.parent leftSame).trans leftPath
    have rightParent := (congrArg DirectoryEntry.parent rightSame).trans rightPath
    change partitionPath leftFile.value = _ at leftParent
    change partitionPath rightFile.value = _ at rightParent
    rw [partitionPath, List.cons.injEq] at leftParent rightParent
    rw [mem_candidates, List.nil_append, ← leftParent.1, parseExponentialPartitions_outer
      (mixed.valid leftFile leftFileMem), Option.some.injEq] at leftMem
    rw [mem_candidates, List.nil_append, ← rightParent.1, parseExponentialPartitions_outer
      (mixed.valid rightFile rightFileMem), Option.some.injEq] at rightMem
    rcases less with less | ⟨same, differs⟩
    · apply Or.inl
      by_contra notLess
      have capacities := outerCapacity_mono_of_capacity (Nat.le_of_not_lt notLess)
      rw [leftMem.2.1, rightMem.2.1] at capacities
      exact absurd less (Nat.not_lt.mpr capacities)
    · rw [← leftParent.1, ← rightParent.1, leftMem.2.1, rightMem.2.1, same] at differs
      exact absurd differs (lt_irrefl _)

theorem ReadableNames.eq_of_name_eq (readable : ReadableNames partitionFileParser files)
    {left right : ValuedFile} (leftMem : left ∈ files) (rightMem : right ∈ files)
    (same : left.name = right.name) : left = right := by
  have leftParsed := readable left leftMem
  have rightParsed := readable right rightMem
  rw [same, rightParsed, Option.some.injEq] at leftParsed
  cases left
  cases right
  simp_all

private theorem exists_map_entry {entries : List DirectoryEntry}
    (areFiles : ∀ entry ∈ entries, ∃ file ∈ files, entry = file.entry) :
    ∃ visited : List ValuedFile, (∀ file ∈ visited, file ∈ files) ∧
      entries = visited.map ValuedFile.entry := by
  induction entries with
  | nil => exact ⟨[], by simp, rfl⟩
  | cons entry entries ih =>
      rcases ih fun other otherMem => areFiles other (List.mem_cons_of_mem entry otherMem) with
        ⟨visited, visitedMem, rfl⟩
      rcases areFiles entry List.mem_cons_self with ⟨file, fileMem, rfl⟩
      refine ⟨file :: visited, ?_, rfl⟩
      simpa using ⟨fileMem, visitedMem⟩

/-- The files of the partition directories that the search visits, in order. -/
theorem Mixed.exists_visited (mixed : Mixed filesystem files unpartitioned)
    (readable : ReadableNames partitionFileParser files) (valid : Partitionable value)
    (startValid : ∀ first ∈ start, Partitionable first) :
    ∃ visited : List ValuedFile, visited.Pairwise Precedes ∧
      (∀ file, file ∈ visited ↔
        file ∈ files ∧ hasExcludedPrefix file.name = false ∧ InRange start value file.value) ∧
      (searchBetween start value partitionFileParser).visitedFiles filesystem 2 [] =
        visited.map ValuedFile.entry := by
  have found : ∀ entry, entry ∈ (searchBetween start value
      partitionFileParser).visitedFiles filesystem 2 [] ↔
        ∃ file ∈ files, hasExcludedPrefix file.name = false ∧
          InRange start value file.value ∧ entry = file.entry :=
    fun entry => mixed.mem_visitedFiles readable valid startValid
  have precedes := @Mixed.visitedFiles_precedes _ _ _ start value partitionFileParser mixed
  rcases exists_map_entry fun entry entryMem => by
      rcases (found entry).mp entryMem with ⟨file, fileMem, _, _, rfl⟩
      exact ⟨file, fileMem, rfl⟩ with ⟨visited, visitedMem, traversed⟩
  rw [traversed] at found precedes
  refine ⟨visited, ?_, ?_, traversed⟩
  · rw [List.pairwise_map] at precedes
    refine precedes.imp_of_mem ?_
    intro left right leftMem rightMem related
    exact related left (visitedMem left leftMem) right (visitedMem right rightMem) rfl rfl
  · intro file
    constructor
    · intro fileMem
      rcases (found file.entry).mp (List.mem_map_of_mem fileMem) with
        ⟨other, otherMem, included, inRange, same⟩
      rw [readable.eq_of_name_eq (visitedMem file fileMem) otherMem
        (congrArg DirectoryEntry.name same)]
      exact ⟨otherMem, included, inRange⟩
    · rintro ⟨fileMem, included, inRange⟩
      rcases List.mem_map.mp ((found file.entry).mpr ⟨file, fileMem, included, inRange, rfl⟩) with
        ⟨other, otherMem, same⟩
      rw [← readable.eq_of_name_eq (visitedMem other otherMem) fileMem
        (congrArg DirectoryEntry.name same)]
      exact otherMem

/-- A search with valid arguments collects files. -/
theorem listDirectoryPartitioned_of_valid (valid : Partitionable value)
    (startValid : ∀ first ∈ start, Partitionable first) (startLe : ∀ first ∈ start, first ≤ value)
    {limit : Option ℕ} (notZero : limit ≠ some 0) (returnUnpartitioned : Bool) :
    listDirectoryPartitioned filesystem value
        (fun value => exponentialPartitionTransform value 1000 2) partitionFileParser limit
        (fun partitionDirs => parseExponentialPartitions partitionDirs 1000) returnUnpartitioned
        start =
      (searchBetween start value partitionFileParser).collectFiles filesystem limit
        returnUnpartitioned := by
  have inOrder : ¬start.any (· > value) := by
    cases start with
    | none => simp
    | some first => simpa using startLe first rfl
  have startPartitions : start.mapM (fun value => exponentialPartitionTransform value 1000 2) =
      .ok (start.map partitionPath) := by
    cases start with
    | none => rfl
    | some first =>
        simp [exponentialPartitionTransform_eq (startValid first rfl), Except.map, Functor.map]
  rw [listDirectoryPartitioned, if_neg notZero, if_neg inOrder,
    exponentialPartitionTransform_eq valid, startPartitions]
  simp only [bind, Except.bind, searchBetween]

end Search

section FlatListing

variable {filesystem : FileSystem} {files : List ValuedFile} {value : ℕ}
  {partitionFileParser : String → Option ℕ}

/-- Where names sort as values do, a search visits the files in descending name order. -/
theorem NamedByValue.name_lt_of_precedes (named : NamedByValue partitionFileParser files)
    {left right : ValuedFile} (leftMem : left ∈ files) (rightMem : right ∈ files)
    (precedes : Precedes left right) : right.name < left.name := by
  rcases precedes with less | ⟨_, less⟩
  · apply named.ordered right rightMem left leftMem
    by_contra notLess
    exact absurd (partitionCapacity_mono (Nat.le_of_not_lt notLess)) (Nat.not_le.mpr less)
  · exact less

theorem Partitioned.onlyDirectories (partitioned : Partitioned filesystem files) :
    (searchBetween none value partitionFileParser).OnlyDirectories filesystem 2 [] := by
  constructor
  · rw [isFileAt, List.any_eq_false]
    simp
  · intro candidate _
    exact partitioned.mixed.onlyDirectories (by simp)

/-- The partitioned search is a flat listing. -/
theorem Partitioned.visitedFiles_eq (partitioned : Partitioned filesystem files)
    (named : NamedByValue partitionFileParser files) (valid : Partitionable value) :
    (searchBetween none value partitionFileParser).visitedFiles filesystem 2 [] =
      ((files.filter (·.value ≤ value)).map ValuedFile.entry).insertionSort NameDescending := by
  rcases @Mixed.exists_visited _ _ _ none _ _ partitioned.mixed named.parsed valid (by simp) with
    ⟨visited, precedes, visitedMem, traversed⟩
  have visitedMem : ∀ file, file ∈ visited ↔ file ∈ files ∧ file.value ≤ value := by
    intro file
    rw [visitedMem]
    constructor
    · rintro ⟨fileMem, -, fits, -⟩
      exact ⟨fileMem, fits⟩
    · rintro ⟨fileMem, fits⟩
      exact ⟨fileMem, named.included file fileMem, fits, rfl⟩
  have descending : visited.Pairwise fun left right => right.name < left.name := by
    refine precedes.imp_of_mem ?_
    intro left right leftMem rightMem
    exact named.name_lt_of_precedes ((visitedMem left).mp leftMem).1
      ((visitedMem right).mp rightMem).1
  have nodup : visited.Nodup := by
    refine descending.imp ?_
    rintro left _ less rfl
    exact lt_irrefl _ less
  have perm : visited.Perm (files.filter (·.value ≤ value)) := by
    rw [List.perm_ext_iff_of_nodup nodup (partitioned.nodupFiles.filter _)]
    intro file
    simp [visitedMem]
  rw [traversed]
  refine ((perm.map _).trans (List.perm_insertionSort _ _).symm).eq_of_pairwise ?_
    (List.pairwise_map.mpr (descending.imp le_of_lt)) (List.pairwise_insertionSort _ _)
  intro left right leftMem rightMem rightLe leftLe
  rw [List.mem_map] at leftMem
  rw [List.mem_insertionSort, List.mem_map] at rightMem
  rcases leftMem with ⟨leftFile, leftFileMem, rfl⟩
  rcases rightMem with ⟨rightFile, rightFileMem, rfl⟩
  exact congrArg ValuedFile.entry (ReadableNames.eq_of_name_eq named.parsed
    ((visitedMem leftFile).mp leftFileMem).1 (List.mem_of_mem_filter rightFileMem)
    (le_antisymm leftLe rightLe))

/--
`list_directory_partitioned` on a directory that was filled by
`write_file_partitioned`: the files at or below the value in descending name
order, up to the limit.
-/
theorem Partitioned.listDirectoryPartitioned_eq (partitioned : Partitioned filesystem files)
    (named : NamedByValue partitionFileParser files) (valid : Partitionable value) {limit : ℕ}
    (positive : 0 < limit) :
    listDirectoryPartitioned filesystem value
        (fun value => exponentialPartitionTransform value 1000 2) partitionFileParser (some limit)
        (fun partitionDirs => parseExponentialPartitions partitionDirs 1000) true none =
      .ok ((((files.filter (·.value ≤ value)).map ValuedFile.entry).insertionSort
        NameDescending).take limit) := by
  have unpartitioned : ∀ remaining,
      (searchBetween none value partitionFileParser).collectUnpartitionedFiles filesystem
        remaining = [] := by
    intro remaining
    have noFiles : (listDirectory filesystem []).filterMap
        (searchBetween none value partitionFileParser).validUnpartitionedFile = [] := by
      rw [List.filterMap_eq_nil_iff]
      intro entry entryMem
      rw [mem_listDirectory] at entryMem
      cases isFile : entry.isFile with
      | true =>
          rcases (partitioned.isFile_iff entry).mp ⟨entryMem.1, isFile⟩ with ⟨file, _, rfl⟩
          simp [ValuedFile.entry, partitionPath] at entryMem
      | false => simp [PartitionSearch.validUnpartitionedFile, isFile]
    cases remaining <;> simp [PartitionSearch.collectUnpartitionedFiles, noFiles, applyLimit]
  have visited : (searchBetween none value partitionFileParser).traversePartitions filesystem 2
      [] (some limit) = .ok ((((files.filter (·.value ≤ value)).map ValuedFile.entry).insertionSort
        NameDescending).take limit) := by
    rw [PartitionSearch.traversePartitions_eq partitioned.onlyDirectories,
      partitioned.visitedFiles_eq named valid]
    rfl
  have notZero : ¬(some limit = some 0) := by
    rw [Option.some.injEq]
    exact positive.ne'
  have levels : (searchBetween none value partitionFileParser).targetPartitions.length = 2 := rfl
  have collected : (searchBetween none value partitionFileParser).collectFiles filesystem
      (some limit) true = .ok ((((files.filter (·.value ≤ value)).map
        ValuedFile.entry).insertionSort NameDescending).take limit) := by
    rw [PartitionSearch.collectFiles, levels, visited]
    simp only [bind, Except.bind, unpartitioned, List.append_nil, ite_self]
    rfl
  rw [listDirectoryPartitioned_of_valid valid (by simp) (by simp) notZero, collected]

end FlatListing

end Deltacat.Utils
