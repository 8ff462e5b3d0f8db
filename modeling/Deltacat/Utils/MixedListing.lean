import Deltacat.Library.Sorting
import Deltacat.Utils.PartitionedListing
import Mathlib

/-!
# Listings of directories that were partitioned later

A directory may hold files from before its files were partitioned. With
`return_unpartitioned`, `list_directory_partitioned` collects them in a second pass, under
what the limit leaves, and appends them to the partitioned files: it "returns files ordered
from partitions closest to the input partition_value", but an unpartitioned file is behind
every partitioned one whatever its value is. A limit then cuts off files with greater values
than the ones that are returned. A file whose name is that of an outer partition directory
is taken for one in the first pass, and the search fails when it tries to list this file.
-/

namespace Deltacat.Utils

open Library ValuedFile

/-- A directory that held files before `write_file_partitioned` wrote others into it. -/
def mixedDirectory (files : List ValuedFile) (unpartitioned : List String) : FileSystem :=
  files.foldr (fun file filesystem => FileSystem.writeFilePartitioned filesystem file)
    (unpartitioned.foldr (fun name filesystem => List.insert (unpartitionedEntry name) filesystem)
      [])

namespace Mixed

variable {filesystem : FileSystem} {files : List ValuedFile} {unpartitioned : List String}

theorem nil : Mixed [] [] [] := Partitioned.nil.mixed

/-- A file at the top of a directory that has no partition directories yet. -/
theorem leave (mixed : Mixed filesystem [] unpartitioned) (name : String)
    (noDirectories : ∀ entry ∈ filesystem, entry.isFile = true) :
    Mixed (List.insert (unpartitionedEntry name) filesystem) [] (name :: unpartitioned) where
  nodup := mixed.nodup.insert
  valid := by simp
  isFile_iff := by
    intro entry
    have others := mixed.isFile_iff entry
    simp only [List.not_mem_nil, false_and, exists_false, false_or] at others ⊢
    rw [List.mem_insert_iff, or_and_right, others]
    constructor
    · rintro (⟨rfl, _⟩ | ⟨other, otherMem, rfl⟩)
      · exact ⟨name, List.mem_cons_self, rfl⟩
      · exact ⟨other, List.mem_cons_of_mem name otherMem, rfl⟩
    · rintro ⟨other, otherMem, rfl⟩
      rcases List.mem_cons.mp otherMem with rfl | otherMem
      · exact Or.inl ⟨rfl, rfl⟩
      · exact Or.inr ⟨other, otherMem, rfl⟩
  isDirectory := by
    intro entry entryMem notFile
    rcases List.mem_insert_iff.mp entryMem with rfl | entryMem
    · cases notFile
    · exact mixed.isDirectory entry entryMem notFile
  outerPresent := by simp
  innerPresent := by simp
  apart := by
    rintro other _ value (present | present)
    · rcases List.mem_insert_iff.mp present with same | present
      · cases congrArg DirectoryEntry.isFile same
      · cases noDirectories _ present
    · rcases List.mem_insert_iff.mp present with same | present
      · cases congrArg DirectoryEntry.isFile same
      · cases noDirectories _ present

/-- Writing a file adds it and the partition directories above it. -/
theorem write (mixed : Mixed filesystem files unpartitioned) {file : ValuedFile}
    (valid : Partitionable file.value)
    (apart : ∀ name ∈ unpartitioned, name ≠ (outerCapacity file.value).repr) :
    Mixed (FileSystem.writeFilePartitioned filesystem file) (file :: files) unpartitioned where
  nodup := ((mixed.nodup.insert).insert).insert
  valid := by
    simpa using ⟨valid, mixed.valid⟩
  isFile_iff := by
    intro entry
    have others := mixed.isFile_iff entry
    simp only [FileSystem.writeFilePartitioned, List.mem_insert_iff]
    constructor
    · rintro ⟨rfl | rfl | rfl | entryMem, isFile⟩
      · cases isFile
      · cases isFile
      · exact Or.inl ⟨file, List.mem_cons_self, rfl⟩
      · refine (others.mp ⟨entryMem, isFile⟩).imp_left ?_
        rintro ⟨other, otherMem, same⟩
        exact ⟨other, List.mem_cons_of_mem file otherMem, same⟩
    · rintro (⟨other, otherMem, rfl⟩ | isUnpartitioned)
      · rcases List.mem_cons.mp otherMem with rfl | otherMem
        · exact ⟨Or.inr (Or.inr (Or.inl rfl)), rfl⟩
        · have present := others.mpr (Or.inl ⟨other, otherMem, rfl⟩)
          exact ⟨Or.inr (Or.inr (Or.inr present.1)), rfl⟩
      · have present := others.mpr (Or.inr isUnpartitioned)
        exact ⟨Or.inr (Or.inr (Or.inr present.1)), present.2⟩
  isDirectory := by
    intro entry entryMem notFile
    simp only [FileSystem.writeFilePartitioned, List.mem_insert_iff] at entryMem
    rcases entryMem with isOuter | isInner | rfl | entryMem
    · exact ⟨file.value, valid, Or.inl isOuter⟩
    · exact ⟨file.value, valid, Or.inr isInner⟩
    · cases notFile
    · exact mixed.isDirectory entry entryMem notFile
  outerPresent := by
    intro other otherMem
    simp only [FileSystem.writeFilePartitioned, List.mem_insert_iff]
    rcases List.mem_cons.mp otherMem with rfl | otherMem
    · exact Or.inl rfl
    · exact Or.inr (Or.inr (Or.inr (mixed.outerPresent other otherMem)))
  innerPresent := by
    intro other otherMem
    simp only [FileSystem.writeFilePartitioned, List.mem_insert_iff]
    rcases List.mem_cons.mp otherMem with rfl | otherMem
    · exact Or.inr (Or.inl rfl)
    · exact Or.inr (Or.inr (Or.inr (mixed.innerPresent other otherMem)))
  apart := by
    intro name nameMem value present
    have old := mixed.apart name nameMem value
    have new := apart name nameMem
    simp only [FileSystem.writeFilePartitioned, List.mem_insert_iff, outerDirectory,
      innerDirectory, ValuedFile.entry, DirectoryEntry.mk.injEq, List.cons.injEq] at present old
    rcases present with (same | same | same | present) | (same | same | same | present)
    · exact fun isName => new (isName.trans same.2.1)
    · simp at same
    · simp at same
    · exact old (.inl present)
    · simp at same
    · exact fun isName => new (isName.trans same.1.1)
    · simp at same
    · exact old (.inr present)

end Mixed

theorem isFile_of_mem_mixedDirectory {unpartitioned : List String} {entry : DirectoryEntry}
    (entryMem : entry ∈ mixedDirectory [] unpartitioned) : entry.isFile = true := by
  induction unpartitioned with
  | nil => simp [mixedDirectory] at entryMem
  | cons name unpartitioned ih =>
      rcases List.mem_insert_iff.mp entryMem with rfl | entryMem
      · rfl
      · exact ih entryMem

theorem mixed_mixedDirectory {files : List ValuedFile} {unpartitioned : List String}
    (valid : ∀ file ∈ files, Partitionable file.value)
    (apart : ∀ file ∈ files, ∀ name ∈ unpartitioned, name ≠ (outerCapacity file.value).repr) :
    Mixed (mixedDirectory files unpartitioned) files unpartitioned := by
  induction files with
  | nil =>
      induction unpartitioned with
      | nil => exact Mixed.nil
      | cons name unpartitioned ih =>
          exact (ih (by simp)).leave name fun entry => isFile_of_mem_mixedDirectory
  | cons file files ih =>
      rw [List.forall_mem_cons] at valid apart
      exact (ih valid.2 apart.2).write valid.1 apart.1

namespace PartitionSearch

variable (search : PartitionSearch) (filesystem : FileSystem)

/-- The unpartitioned files in range, greatest value first. -/
def unpartitionedFiles : List DirectoryEntry :=
  (((listDirectory filesystem []).filterMap search.validUnpartitionedFile).insertionSort
    fun left right => right.1 ≤ left.1).map Prod.snd

/-- The second pass continues the first one: together they are one listing up to the limit. -/
theorem collectFiles_eq {search : PartitionSearch} {filesystem : FileSystem} {limit : Option ℕ}
    (traversed : search.traversePartitions filesystem search.targetPartitions.length [] limit =
      .ok (applyLimit limit
        (search.visitedFiles filesystem search.targetPartitions.length []))) :
    search.collectFiles filesystem limit true =
      .ok (applyLimit limit
        (search.visitedFiles filesystem search.targetPartitions.length [] ++
          search.unpartitionedFiles filesystem)) := by
  have second : ∀ remaining, search.collectUnpartitionedFiles filesystem remaining =
      applyLimit remaining (search.unpartitionedFiles filesystem) := fun _ => rfl
  rw [collectFiles, traversed]
  generalize search.visitedFiles filesystem search.targetPartitions.length [] = visited
  cases limit with
  | none => simp [second, applyLimit, bind, Except.bind, pure, Except.pure]
  | some count =>
      simp only [bind, Except.bind, pure, Except.pure, second, applyLimit, Option.map_some,
        true_and, List.take_append, List.length_take]
      split
      · congr 3
        omega
      · rename_i noneLeft
        have full : count - visited.length = 0 := by
          simp only [ne_eq, Option.some.injEq, not_not] at noneLeft
          omega
        simp [full]

end PartitionSearch

section Order

variable (partitionFileParser : String → Option ℕ)

/-- The value of a file, as its name tells it. -/
def fileValue (entry : DirectoryEntry) : ℕ := (partitionFileParser entry.name).getD 0

/-- A file stands before another one in a listing from the requested value downwards. -/
def ValueDescending (left right : DirectoryEntry) : Prop :=
  fileValue partitionFileParser right ≤ fileValue partitionFileParser left

instance : DecidableRel (ValueDescending partitionFileParser) :=
  fun left right => inferInstanceAs (Decidable (fileValue partitionFileParser right ≤
    fileValue partitionFileParser left))

instance : Std.Total (ValueDescending partitionFileParser) :=
  ⟨fun left right => le_total (fileValue partitionFileParser right)
    (fileValue partitionFileParser left)⟩

instance : IsTrans DirectoryEntry (ValueDescending partitionFileParser) :=
  ⟨fun _ _ _ first second => le_trans second first⟩

/-- The first pass visits a file before another one. -/
def VisitedBefore (left right : DirectoryEntry) : Prop :=
  Precedes ⟨fileValue partitionFileParser left, left.name⟩
    ⟨fileValue partitionFileParser right, right.name⟩

instance : DecidableRel (VisitedBefore partitionFileParser) :=
  fun left right => inferInstanceAs (Decidable (Precedes
    ⟨fileValue partitionFileParser left, left.name⟩
    ⟨fileValue partitionFileParser right, right.name⟩))

/-- The first pass is done with a file's partition directory before another candidate. -/
def EnteredBefore (entry : DirectoryEntry) (candidate : ℕ × String) : Prop :=
  candidate.1 < outerCapacity (fileValue partitionFileParser entry) ∨
    candidate.1 = outerCapacity (fileValue partitionFileParser entry) ∧
      candidate.2 < (outerCapacity (fileValue partitionFileParser entry)).repr

instance (entry : DirectoryEntry) (candidate : ℕ × String) :
    Decidable (EnteredBefore partitionFileParser entry candidate) :=
  inferInstanceAs (Decidable (_ < _ ∨ _ = _ ∧ _ < _))

/-- The files of a directory that are not hidden and have a value in range, partitioned or not. -/
def filesInRange (filesystem : FileSystem) (start : Option ℕ) (value : ℕ) :
    List DirectoryEntry :=
  filesystem.filter fun entry =>
    entry.isFile ∧ hasExcludedPrefix entry.name = false ∧
      ∃ fileValue ∈ partitionFileParser entry.name, InRange start value fileValue

/-- The files in range that are below partition directories. -/
def partitionedInRange (filesystem : FileSystem) (start : Option ℕ) (value : ℕ) :
    List DirectoryEntry :=
  (filesInRange partitionFileParser filesystem start value).filter (·.parent ≠ [])

/--
The search lists the files in range by descending value: all of them, or the first
ones of that order if there is a limit.
-/
def ListsByValue (filesystem : FileSystem) (start : Option ℕ) (value : ℕ) (limit : Option ℕ) :
    Prop :=
  ∃ order : List DirectoryEntry,
    order.Perm (filesInRange partitionFileParser filesystem start value) ∧
    order.Pairwise (ValueDescending partitionFileParser) ∧
    listDirectoryPartitioned filesystem value
        (fun value => exponentialPartitionTransform value 1000 2) partitionFileParser limit
        (fun partitionDirs => parseExponentialPartitions partitionDirs 1000) true start =
      .ok (applyLimit limit order)

/--
No partitioned file that the first pass visits within the limit has a smaller value than a
file behind it, be it an unpartitioned one or one that the first pass visits later.
-/
def PartitionedAbove (filesystem : FileSystem) (start : Option ℕ) (value : ℕ)
    (limit : Option ℕ) : Prop :=
  ∀ first ∈ partitionedInRange partitionFileParser filesystem start value,
    (∀ count ∈ limit, ((partitionedInRange partitionFileParser filesystem start value).filter
      (VisitedBefore partitionFileParser · first)).length < count) →
    ∀ later ∈ filesInRange partitionFileParser filesystem start value,
      later.parent = [] ∨ VisitedBefore partitionFileParser first later →
        ValueDescending partitionFileParser first later

/--
A file at the top is taken for an outer partition directory whose capacity is in range, and
the limit is not reached by the files of the partition directories before it.
-/
def EntersFile (filesystem : FileSystem) (start : Option ℕ) (value : ℕ) (limit : Option ℕ) :
    Prop :=
  ∃ entry ∈ filesystem, entry.isFile ∧ entry.parent = [] ∧
    ∃ capacity ∈ parseExponentialPartitions [entry.name] 1000,
      capacity ≤ outerCapacity value ∧ (∀ first ∈ start, outerCapacity first ≤ capacity) ∧
      ∀ count ∈ limit, ((partitionedInRange partitionFileParser filesystem start value).filter
        (EnteredBefore partitionFileParser · (capacity, entry.name))).length < count

instance (filesystem : FileSystem) (start : Option ℕ) (value : ℕ) (limit : Option ℕ) :
    Decidable (EntersFile partitionFileParser filesystem start value limit) :=
  inferInstanceAs (Decidable (∃ entry ∈ filesystem, _ ∧ _ ∧
    ∃ capacity ∈ parseExponentialPartitions [entry.name] 1000, _ ∧ _ ∧ _))

instance (filesystem : FileSystem) (start : Option ℕ) (value : ℕ) (limit : Option ℕ) :
    Decidable (PartitionedAbove partitionFileParser filesystem start value limit) :=
  inferInstanceAs (Decidable (∀ first ∈ partitionedInRange partitionFileParser filesystem start
    value, _ → ∀ later ∈ filesInRange partitionFileParser filesystem start value, _ → _))

end Order

section Listing

variable {filesystem : FileSystem} {files : List ValuedFile} {unpartitioned : List String}
  {start : Option ℕ} {value : ℕ} {limit : Option ℕ} {partitionFileParser : String → Option ℕ}

theorem exponentialPartitionTransform_of_not_partitionable (invalid : ¬Partitionable value) :
    exponentialPartitionTransform value 1000 2 = .error .valueError := by
  by_cases zero : value = 0
  · rw [exponentialPartitionTransform, if_pos zero]
  · have tooLarge : unsignedInt64MaxValue < outerCapacity value := by
      by_contra fits
      exact invalid ⟨Nat.pos_of_ne_zero zero, Nat.not_lt.mp fits⟩
    have isOuter : outerCapacity value ∈ exponentialPartitionValues 1000 2 value :=
      List.mem_cons_self
    rw [exponentialPartitionTransform, if_neg zero, if_neg (by norm_num), if_neg (by norm_num)]
    apply if_pos
    rw [List.any_eq_true]
    exact ⟨outerCapacity value, isOuter, by simpa using tooLarge⟩

theorem Partitionable.of_le {smaller : ℕ} (valid : Partitionable value) (le : smaller ≤ value)
    (positive : 0 < smaller) : Partitionable smaller :=
  ⟨positive, (outerCapacity_mono le).trans valid.2⟩

/-- An invalid argument makes the search fail. -/
theorem listDirectoryPartitioned_ne_ok {result : List DirectoryEntry}
    (invalid : ¬(Partitionable value ∧ start ≠ some 0 ∧ limit ≠ some 0))
    (startLe : ∀ first ∈ start, first ≤ value) :
    listDirectoryPartitioned filesystem value
        (fun value => exponentialPartitionTransform value 1000 2) partitionFileParser limit
        (fun partitionDirs => parseExponentialPartitions partitionDirs 1000) true start ≠
      .ok result := by
  have inOrder : ¬start.any (· > value) := by
    cases start with
    | none => simp
    | some first => simpa using startLe first rfl
  by_cases zeroLimit : limit = some 0
  · rw [listDirectoryPartitioned, if_pos zeroLimit]
    simp
  · rw [listDirectoryPartitioned, if_neg zeroLimit, if_neg inOrder]
    by_cases valid : Partitionable value
    · have zeroStart : start = some 0 := by
        by_contra isPositive
        exact invalid ⟨valid, isPositive, zeroLimit⟩
      have startFails : exponentialPartitionTransform 0 1000 2 = .error .valueError := rfl
      rw [exponentialPartitionTransform_eq valid, zeroStart]
      simp [startFails, bind, Except.bind, Option.mapM, Functor.map, Except.map]
    · rw [exponentialPartitionTransform_of_not_partitionable valid]
      simp [bind, Except.bind]

theorem ReadableNames.fileValue_eq (readable : ReadableNames partitionFileParser files)
    {file : ValuedFile} (fileMem : file ∈ files) :
    fileValue partitionFileParser file.entry = file.value := by
  rw [fileValue, ValuedFile.entry, readable file fileMem, Option.getD_some]

/-- The files of a mixed directory. -/
theorem Mixed.mem_filesInRange (mixed : Mixed filesystem files unpartitioned)
    (readable : ReadableNames partitionFileParser files) {entry : DirectoryEntry} :
    entry ∈ filesInRange partitionFileParser filesystem start value ↔
      (∃ file ∈ files, hasExcludedPrefix file.name = false ∧ InRange start value file.value ∧
        entry = file.entry) ∨
      ∃ name ∈ unpartitioned, hasExcludedPrefix name = false ∧
        (∃ fileValue ∈ partitionFileParser name, InRange start value fileValue) ∧
        entry = unpartitionedEntry name := by
  rw [filesInRange, List.mem_filter, decide_eq_true_iff, ← and_assoc, mixed.isFile_iff]
  constructor
  · rintro ⟨⟨file, fileMem, rfl⟩ | ⟨name, nameMem, rfl⟩, included, inRange⟩
    · rcases inRange with ⟨fileValue, parsed, inRange⟩
      rw [ValuedFile.entry, readable file fileMem, Option.mem_some_iff] at parsed
      exact Or.inl ⟨file, fileMem, included, parsed ▸ inRange, rfl⟩
    · exact Or.inr ⟨name, nameMem, included, inRange, rfl⟩
  · rintro (⟨file, fileMem, included, inRange, rfl⟩ | ⟨name, nameMem, included, inRange, rfl⟩)
    · exact ⟨Or.inl ⟨file, fileMem, rfl⟩, included, file.value, readable file fileMem, inRange⟩
    · exact ⟨Or.inr ⟨name, nameMem, rfl⟩, included, inRange⟩

theorem Mixed.mem_partitionedInRange (mixed : Mixed filesystem files unpartitioned)
    (readable : ReadableNames partitionFileParser files) {entry : DirectoryEntry} :
    entry ∈ partitionedInRange partitionFileParser filesystem start value ↔
      ∃ file ∈ files, hasExcludedPrefix file.name = false ∧ InRange start value file.value ∧
        entry = file.entry := by
  rw [partitionedInRange, List.mem_filter, mixed.mem_filesInRange readable, decide_eq_true_iff]
  constructor
  · rintro ⟨isPartitioned | ⟨name, _, _, _, rfl⟩, notTop⟩
    · exact isPartitioned
    · exact absurd rfl notTop
  · rintro ⟨file, fileMem, included, inRange, rfl⟩
    refine ⟨Or.inl ⟨file, fileMem, included, inRange, rfl⟩, ?_⟩
    simp [ValuedFile.entry, partitionPath]

theorem validUnpartitionedFile_eq_some_iff {entry : DirectoryEntry} {found : ℕ × DirectoryEntry} :
    (searchBetween start value partitionFileParser).validUnpartitionedFile entry = some found ↔
      entry.isFile ∧ partitionFileParser entry.name = some found.1 ∧
        InRange start value found.1 ∧ entry = found.2 := by
  rcases found with ⟨foundValue, foundEntry⟩
  cases isFile : entry.isFile with
  | false => simp [PartitionSearch.validUnpartitionedFile, isFile]
  | true =>
      cases parsed : partitionFileParser entry.name with
      | none => simp [PartitionSearch.validUnpartitionedFile, searchBetween, isFile, parsed]
      | some parsedValue =>
          have isIf : (searchBetween start value partitionFileParser).validUnpartitionedFile entry =
              if InRange start value parsedValue then some (parsedValue, entry) else none := by
            simp only [PartitionSearch.validUnpartitionedFile, searchBetween, isFile, parsed,
              if_true]
            rfl
          rw [isIf, Option.ite_none_right_eq_some, Option.some.injEq, Option.some.injEq,
            Prod.mk.injEq]
          simp only [true_and]
          constructor
          · rintro ⟨inRange, rfl, rfl⟩
            exact ⟨rfl, inRange, rfl⟩
          · rintro ⟨rfl, inRange, rfl⟩
            exact ⟨inRange, rfl, rfl⟩

/-- The second pass finds the unpartitioned files in range. -/
theorem Mixed.mem_unpartitionedFiles (mixed : Mixed filesystem files unpartitioned)
    {entry : DirectoryEntry} :
    entry ∈ (searchBetween start value partitionFileParser).unpartitionedFiles filesystem ↔
      ∃ name ∈ unpartitioned, hasExcludedPrefix name = false ∧
        (∃ fileValue ∈ partitionFileParser name, InRange start value fileValue) ∧
        entry = unpartitionedEntry name := by
  simp only [PartitionSearch.unpartitionedFiles, List.mem_map, List.mem_insertionSort,
    List.mem_filterMap, validUnpartitionedFile_eq_some_iff, mem_listDirectory]
  constructor
  · rintro ⟨⟨foundValue, _⟩, ⟨entry, ⟨entryMem, isTop, included⟩, isFile, parsed, inRange, rfl⟩,
      rfl⟩
    rcases (mixed.isFile_iff entry).mp ⟨entryMem, isFile⟩ with ⟨file, _, rfl⟩ | ⟨name, nameMem, rfl⟩
    · simp [ValuedFile.entry, partitionPath] at isTop
    · exact ⟨name, nameMem, included, ⟨foundValue, parsed, inRange⟩, rfl⟩
  · rintro ⟨name, nameMem, included, ⟨fileValue, parsed, inRange⟩, rfl⟩
    have present := (mixed.isFile_iff (unpartitionedEntry name)).mpr (Or.inr ⟨name, nameMem, rfl⟩)
    exact ⟨(fileValue, unpartitionedEntry name), ⟨unpartitionedEntry name,
      ⟨present.1, rfl, included⟩, rfl, parsed, inRange, rfl⟩, rfl⟩

/-- The second pass sorts what it found. -/
theorem unpartitionedFiles_descending :
    ((searchBetween start value partitionFileParser).unpartitionedFiles filesystem).Pairwise
      (ValueDescending partitionFileParser) := by
  rw [PartitionSearch.unpartitionedFiles, List.pairwise_map]
  refine (List.pairwise_insertionSort _ _).imp_of_mem ?_
  intro left right leftMem rightMem descending
  simp only [List.mem_insertionSort, List.mem_filterMap, validUnpartitionedFile_eq_some_iff]
    at leftMem rightMem
  rcases leftMem with ⟨_, _, _, leftParsed, _, rfl⟩
  rcases rightMem with ⟨_, _, _, rightParsed, _, rfl⟩
  rw [ValueDescending, fileValue, fileValue, leftParsed, rightParsed]
  exact descending

theorem Mixed.nodup_unpartitionedFiles (mixed : Mixed filesystem files unpartitioned) :
    ((searchBetween start value partitionFileParser).unpartitionedFiles filesystem).Nodup := by
  have found : (((listDirectory filesystem []).filterMap
      (searchBetween start value partitionFileParser).validUnpartitionedFile).map
        Prod.snd).Nodup := by
    rw [List.map_filterMap, List.Nodup, List.pairwise_filterMap]
    have distinct : (listDirectory filesystem []).Nodup :=
      (List.perm_insertionSort _ _).nodup_iff.mpr (mixed.nodup.filter _)
    refine distinct.imp ?_
    intro left right different leftEntry isLeft rightEntry isRight same
    simp only [Option.map_eq_some_iff, validUnpartitionedFile_eq_some_iff] at isLeft isRight
    rcases isLeft with ⟨_, ⟨_, _, _, leftSame⟩, rfl⟩
    rcases isRight with ⟨_, ⟨_, _, _, rightSame⟩, rfl⟩
    exact different (leftSame.trans (same.trans rightSame.symm))
  exact ((List.perm_insertionSort _ _).map Prod.snd).nodup_iff.mpr found

/-- The first pass visits the partitioned files in range, each once. -/
theorem Mixed.exists_firstPass (mixed : Mixed filesystem files unpartitioned)
    (readable : ReadableNames partitionFileParser files)
    (valid : Partitionable value) (startValid : ∀ first ∈ start, Partitionable first) :
    ∃ firstPass : List DirectoryEntry, firstPass.Pairwise (VisitedBefore partitionFileParser) ∧
      firstPass.Perm (partitionedInRange partitionFileParser filesystem start value) ∧
      (searchBetween start value partitionFileParser).visitedFiles filesystem 2 [] =
        firstPass := by
  rcases mixed.exists_visited readable valid startValid with
    ⟨visited, precedes, visitedMem, traversed⟩
  have visitedBefore : (visited.map ValuedFile.entry).Pairwise
      (VisitedBefore partitionFileParser) := by
    rw [List.pairwise_map]
    refine precedes.imp_of_mem ?_
    intro left right leftMem rightMem related
    rw [VisitedBefore, readable.fileValue_eq ((visitedMem left).mp leftMem).1,
      readable.fileValue_eq ((visitedMem right).mp rightMem).1]
    exact related
  refine ⟨_, visitedBefore, ?_, traversed⟩
  have nodup : (visited.map ValuedFile.entry).Nodup := by
    refine visitedBefore.imp ?_
    rintro left _ related rfl
    exact Precedes.asymm related related
  have nodupInRange : (partitionedInRange partitionFileParser filesystem start value).Nodup :=
    (mixed.nodup.filter _).filter _
  rw [List.perm_ext_iff_of_nodup nodup nodupInRange]
  intro entry
  rw [mixed.mem_partitionedInRange readable, List.mem_map]
  constructor
  · rintro ⟨file, fileMem, rfl⟩
    rcases (visitedMem file).mp fileMem with ⟨fileMem, included, inRange⟩
    exact ⟨file, fileMem, included, inRange, rfl⟩
  · rintro ⟨file, fileMem, included, inRange, rfl⟩
    exact ⟨file, (visitedMem file).mpr ⟨fileMem, included, inRange⟩, rfl⟩

/-- What the first pass finds before one of its candidates. -/
theorem Mixed.filter_enteredBefore (mixed : Mixed filesystem files unpartitioned)
    (readable : ReadableNames partitionFileParser files)
    {before after : List (ℕ × String)} {candidate : ℕ × String}
    (split : (searchBetween start value partitionFileParser).candidates filesystem [] =
      before ++ candidate :: after) :
    ((searchBetween start value partitionFileParser).visitedFiles filesystem 2 []).filter
        (EnteredBefore partitionFileParser · candidate) =
      before.flatMap fun other =>
        (searchBetween start value partitionFileParser).visitedFiles filesystem 1 [other.2] := by
  have descending : (before ++ candidate :: after).Pairwise
      fun left right => right.1 < left.1 ∨ right.1 = left.1 ∧ right.2 < left.2 :=
    split ▸ mixed.candidates_descending []
  rw [List.pairwise_append, List.pairwise_cons] at descending
  rcases descending with ⟨-, ⟨candidateFirst, -⟩, beforeFirst⟩
  -- A file's outer directory is the candidate below which it is found.
  have enteredBefore {other : ℕ × String} (otherMem : other ∈ before ++ candidate :: after)
      {entry : DirectoryEntry} (entryMem : entry ∈ (searchBetween start value
        partitionFileParser).visitedFiles filesystem 1 [other.2]) :
      EnteredBefore partitionFileParser entry candidate ↔
        candidate.1 < other.1 ∨ candidate.1 = other.1 ∧ candidate.2 < other.2 := by
    rcases List.mem_flatMap.mp entryMem with ⟨inner, _, entryMem⟩
    rcases mixed.mem_leafFiles_file entryMem with ⟨file, fileMem, rfl, path⟩
    rw [partitionPath, List.cons.injEq] at path
    rw [← split, mem_candidates, List.nil_append, ← path.1, parseExponentialPartitions_outer
      (mixed.valid file fileMem), Option.some.injEq] at otherMem
    rw [EnteredBefore, readable.fileValue_eq fileMem, path.1, otherMem.2.1]
  have visited : (searchBetween start value partitionFileParser).visitedFiles filesystem 2 [] =
      (before ++ candidate :: after).flatMap fun other =>
        (searchBetween start value partitionFileParser).visitedFiles filesystem 1 [other.2] :=
    split ▸ rfl
  rw [visited, List.flatMap_append, List.filter_append]
  have allBefore : (before.flatMap fun other =>
      (searchBetween start value partitionFileParser).visitedFiles filesystem 1 [other.2]).filter
        (EnteredBefore partitionFileParser · candidate) = before.flatMap fun other =>
      (searchBetween start value partitionFileParser).visitedFiles filesystem 1 [other.2] := by
    rw [List.filter_eq_self]
    intro entry entryMem
    rcases List.mem_flatMap.mp entryMem with ⟨other, otherMem, entryMem⟩
    rw [decide_eq_true_iff, enteredBefore (List.mem_append_left _ otherMem) entryMem]
    exact beforeFirst other otherMem candidate List.mem_cons_self
  have noneAfter : ((candidate :: after).flatMap fun other =>
      (searchBetween start value partitionFileParser).visitedFiles filesystem 1 [other.2]).filter
        (EnteredBefore partitionFileParser · candidate) = [] := by
    rw [List.filter_eq_nil_iff]
    intro entry entryMem
    rcases List.mem_flatMap.mp entryMem with ⟨other, otherMem, entryMem⟩
    rw [decide_eq_true_iff, enteredBefore (List.mem_append_right _ otherMem) entryMem]
    rcases List.mem_cons.mp otherMem with rfl | isLater
    · rintro (less | ⟨_, less⟩)
      · exact lt_irrefl _ less
      · exact lt_irrefl _ less
    · rintro (less | ⟨same, less⟩)
      · rcases candidateFirst other isLater with greater | ⟨same, _⟩ <;> omega
      · rcases candidateFirst other isLater with greater | ⟨_, greater⟩
        · omega
        · exact lt_asymm less greater
  rw [allBefore, noneAfter, List.append_nil]

/-- The first pass fails exactly if it enters a file. -/
theorem Mixed.meetsFile_iff (mixed : Mixed filesystem files unpartitioned)
    (readable : ReadableNames partitionFileParser files)
    (valid : Partitionable value) (startValid : ∀ first ∈ start, Partitionable first) :
    (searchBetween start value partitionFileParser).MeetsFile filesystem 1 [] limit 0
        ((searchBetween start value partitionFileParser).candidates filesystem []) ↔
      EntersFile partitionFileParser filesystem start value limit := by
  rcases mixed.exists_firstPass readable valid startValid with
    ⟨firstPass, _, permFirst, traversed⟩
  have count {before after : List (ℕ × String)} {candidate : ℕ × String}
      (split : (searchBetween start value partitionFileParser).candidates filesystem [] =
        before ++ candidate :: after) :
      (before.flatMap fun other => (searchBetween start value
          partitionFileParser).visitedFiles filesystem 1 [other.2]).length =
        ((partitionedInRange partitionFileParser filesystem start value).filter
          (EnteredBefore partitionFileParser · candidate)).length := by
    rw [← mixed.filter_enteredBefore readable split, traversed]
    exact (permFirst.filter _).length_eq
  have startAll {capacity : ℕ} : (start.map outerCapacity).all (· ≤ capacity) = true ↔
      ∀ first ∈ start, outerCapacity first ≤ capacity := by
    cases start with
    | none => simp
    | some first =>
        rw [Option.map_some, Option.all_some, decide_eq_true_iff]
        simp only [Option.mem_some_iff, forall_eq']
  rw [PartitionSearch.meetsFile_iff]
  simp only [Nat.zero_add, List.nil_append]
  constructor
  · rintro ⟨before, candidate, after, split, isFile, short⟩
    have candidateMem : candidate ∈
        (searchBetween start value partitionFileParser).candidates filesystem [] := by
      simp [split]
    rw [mem_candidates, List.nil_append, targetValue_outer valid,
      targetStartValue_outer startValid, startAll] at candidateMem
    rw [mixed.isFileAt_iff (by simp)] at isFile
    rcases isFile with ⟨name, nameMem, isName⟩
    have isName : (unpartitionedEntry name).name = candidate.2 := (List.cons.inj isName).1.symm
    have present := (mixed.isFile_iff (unpartitionedEntry name)).mpr (.inr ⟨name, nameMem, rfl⟩)
    refine ⟨unpartitionedEntry name, present.1, rfl, rfl, candidate.1, ?_, candidateMem.2.2.1,
      candidateMem.2.2.2, ?_⟩
    · rw [isName, Option.mem_def]
      exact candidateMem.2.1
    · rw [isName, ← count split]
      exact short
  · rintro ⟨entry, entryMem, isFile, isTop, capacity, parsed, upper, lower, short⟩
    have candidateMem : (capacity, entry.name) ∈
        (searchBetween start value partitionFileParser).candidates filesystem [] := by
      rw [Option.mem_def] at parsed
      rw [mem_candidates, List.nil_append, targetValue_outer valid,
        targetStartValue_outer startValid, startAll]
      refine ⟨⟨entry, ?_, rfl⟩, parsed, upper, lower⟩
      rw [mem_listDirectory]
      exact ⟨entryMem, isTop, hasExcludedPrefix_of_parsed parsed⟩
    rcases List.append_of_mem candidateMem with ⟨before, after, split⟩
    refine ⟨before, (capacity, entry.name), after, split, ?_, ?_⟩
    · rw [isFileAt, List.any_eq_true]
      exact ⟨entry, entryMem, by simp [isFile, isTop]⟩
    · rw [count split]
      exact short

/-- The first pass, which a file with the name of a partition directory may end. -/
theorem Mixed.traversePartitions_eq (mixed : Mixed filesystem files unpartitioned) :
    let search := searchBetween start value partitionFileParser
    (search.MeetsFile filesystem 1 [] limit 0 (search.candidates filesystem []) →
      search.traversePartitions filesystem 2 [] limit = .error .osError) ∧
    (¬search.MeetsFile filesystem 1 [] limit 0 (search.candidates filesystem []) →
      search.traversePartitions filesystem 2 [] limit =
        .ok (applyLimit limit (search.visitedFiles filesystem 2 []))) := by
  apply PartitionSearch.traversePartitions_succ
  · rw [Bool.eq_false_iff, ne_eq, mixed.isFileAt_iff (by simp)]
    simp
  · intro candidate _ remaining
    by_cases isFile : isFileAt filesystem [candidate.2] = true
    · simp [PartitionSearch.traversePartitions, isFile, throw, throwThe, MonadExceptOf.throw,
        bind, Except.bind]
    · have notUnpartitioned : candidate.2 ∉ unpartitioned := by
        intro nameMem
        exact isFile ((mixed.isFileAt_iff (by simp)).mpr ⟨_, nameMem, rfl⟩)
      rw [List.nil_append, if_neg isFile]
      exact PartitionSearch.traversePartitions_eq (mixed.onlyDirectories notUnpartitioned) _

/-- A search that enters a file fails. -/
theorem Mixed.listDirectoryPartitioned_of_entersFile
    (mixed : Mixed filesystem files unpartitioned)
    (readable : ReadableNames partitionFileParser files)
    (valid : Partitionable value) (startValid : ∀ first ∈ start, Partitionable first)
    (startLe : ∀ first ∈ start, first ≤ value) (notZero : limit ≠ some 0)
    (entersFile : EntersFile partitionFileParser filesystem start value limit) :
    listDirectoryPartitioned filesystem value
        (fun value => exponentialPartitionTransform value 1000 2) partitionFileParser limit
        (fun partitionDirs => parseExponentialPartitions partitionDirs 1000) true start =
      .error .osError := by
  have levels : (searchBetween start value partitionFileParser).targetPartitions.length = 2 := rfl
  rw [← mixed.meetsFile_iff readable valid startValid] at entersFile
  rw [listDirectoryPartitioned_of_valid valid startValid startLe notZero,
    PartitionSearch.collectFiles, levels, mixed.traversePartitions_eq.1 entersFile]
  rfl

/--
Where the search is valid and enters no file, the listing is the first pass followed by the
second one.
-/
theorem Mixed.exists_listing (mixed : Mixed filesystem files unpartitioned)
    (readable : ReadableNames partitionFileParser files)
    (valid : Partitionable value) (startValid : ∀ first ∈ start, Partitionable first)
    (startLe : ∀ first ∈ start, first ≤ value) (notZero : limit ≠ some 0)
    (entersNone : ¬EntersFile partitionFileParser filesystem start value limit) :
    ∃ firstPass secondPass : List DirectoryEntry,
      firstPass.Pairwise (VisitedBefore partitionFileParser) ∧
      firstPass.Perm (partitionedInRange partitionFileParser filesystem start value) ∧
      secondPass.Pairwise (ValueDescending partitionFileParser) ∧
      (∀ entry, entry ∈ secondPass ↔
        entry ∈ filesInRange partitionFileParser filesystem start value ∧ entry.parent = []) ∧
      (firstPass ++ secondPass).Perm (filesInRange partitionFileParser filesystem start value) ∧
      listDirectoryPartitioned filesystem value
          (fun value => exponentialPartitionTransform value 1000 2) partitionFileParser limit
          (fun partitionDirs => parseExponentialPartitions partitionDirs 1000) true start =
        .ok (applyLimit limit (firstPass ++ secondPass)) := by
  rcases mixed.exists_firstPass readable valid startValid with
    ⟨firstPass, visitedBefore, permFirst, visited⟩
  have secondMem : ∀ entry, entry ∈ (searchBetween start value
      partitionFileParser).unpartitionedFiles filesystem ↔
        entry ∈ filesInRange partitionFileParser filesystem start value ∧ entry.parent = [] := by
    intro entry
    rw [mixed.mem_unpartitionedFiles, mixed.mem_filesInRange readable]
    constructor
    · intro isUnpartitioned
      refine ⟨Or.inr isUnpartitioned, ?_⟩
      rcases isUnpartitioned with ⟨name, _, _, _, rfl⟩
      rfl
    · rintro ⟨⟨file, _, _, _, rfl⟩ | isUnpartitioned, isTop⟩
      · simp [ValuedFile.entry, partitionPath] at isTop
      · exact isUnpartitioned
  have nodupInRange : (filesInRange partitionFileParser filesystem start value).Nodup :=
    mixed.nodup.filter _
  have firstMem : ∀ entry, entry ∈ firstPass ↔
      entry ∈ filesInRange partitionFileParser filesystem start value ∧ entry.parent ≠ [] := by
    intro entry
    rw [permFirst.mem_iff, partitionedInRange, List.mem_filter, decide_eq_true_iff]
  refine ⟨firstPass, _, visitedBefore, permFirst, unpartitionedFiles_descending, secondMem, ?_, ?_⟩
  · rw [List.perm_ext_iff_of_nodup _ nodupInRange]
    · intro entry
      rw [List.mem_append, firstMem, secondMem, ← and_or_left]
      exact and_iff_left (em' _)
    · rw [List.nodup_append]
      refine ⟨permFirst.nodup_iff.mpr (nodupInRange.filter _), mixed.nodup_unpartitionedFiles, ?_⟩
      rintro entry isFirst _ isSecond rfl
      exact ((firstMem entry).mp isFirst).2 ((secondMem entry).mp isSecond).2
  · rw [← mixed.meetsFile_iff readable valid startValid] at entersNone
    have collected := PartitionSearch.collectFiles_eq (mixed.traversePartitions_eq.2 entersNone)
    rw [listDirectoryPartitioned_of_valid valid startValid startLe notZero, collected, ← visited]
    rfl

theorem applyLimit_eq_take {items all : List DirectoryEntry}
    (sameLength : items.length = all.length) :
    applyLimit limit items = items.take (limit.getD all.length) := by
  cases limit with
  | none => simp [applyLimit, ← sameLength]
  | some count => rfl

/--
If no file is entered, the two passes together are in order if and only if the partitioned
files are above.
-/
theorem Mixed.listsByValue_iff (mixed : Mixed filesystem files unpartitioned)
    (readable : ReadableNames partitionFileParser files)
    (startLe : ∀ first ∈ start, first ≤ value) :
    ListsByValue partitionFileParser filesystem start value limit ↔
      (Partitionable value ∧ start ≠ some 0 ∧ limit ≠ some 0) ∧
        ¬EntersFile partitionFileParser filesystem start value limit ∧
          PartitionedAbove partitionFileParser filesystem start value limit := by
  by_cases arguments : Partitionable value ∧ start ≠ some 0 ∧ limit ≠ some 0
  · rcases arguments with ⟨valid, startNotZero, limitNotZero⟩
    have startValid : ∀ first ∈ start, Partitionable first := by
      intro first isStart
      apply valid.of_le (startLe first isStart)
      apply Nat.pos_of_ne_zero
      rintro rfl
      exact startNotZero isStart
    have arguments : Partitionable value ∧ start ≠ some 0 ∧ limit ≠ some 0 :=
      ⟨valid, startNotZero, limitNotZero⟩
    rw [and_iff_right arguments]
    by_cases entersFile : EntersFile partitionFileParser filesystem start value limit
    · have fails := mixed.listDirectoryPartitioned_of_entersFile readable valid startValid startLe
        limitNotZero entersFile
      refine iff_of_false ?_ fun both => both.1 entersFile
      rintro ⟨order, _, _, listed⟩
      rw [fails] at listed
      cases listed
    rw [and_iff_right entersFile]
    rcases mixed.exists_listing readable valid startValid startLe limitNotZero entersFile with
      ⟨firstPass, secondPass, visitedBefore, permFirst, descending, secondMem, perm, listed⟩
    have sorted := @exists_sorted_take_iff _ (ValueDescending partitionFileParser) _ _ _
      (firstPass ++ secondPass) (limit.getD (firstPass ++ secondPass).length)
    have asymm : ∀ left right, VisitedBefore partitionFileParser left right →
        ¬VisitedBefore partitionFileParser right left := fun _ _ => Precedes.asymm
    rw [take_append_sorted_iff visitedBefore asymm descending] at sorted
    have listsByValue : ListsByValue partitionFileParser filesystem start value limit ↔
        ∃ order : List DirectoryEntry, order.Perm (firstPass ++ secondPass) ∧
          order.Pairwise (ValueDescending partitionFileParser) ∧
          order.take (limit.getD (firstPass ++ secondPass).length) =
            (firstPass ++ secondPass).take (limit.getD (firstPass ++ secondPass).length) := by
      simp only [ListsByValue, listed, Except.ok.injEq]
      apply exists_congr
      intro order
      rw [← perm.congr_right order]
      apply and_congr_right
      intro isOrder
      apply and_congr_right'
      rw [applyLimit_eq_take rfl, applyLimit_eq_take isOrder.length_eq, eq_comm]
    rw [listsByValue, sorted]
    have rank : ∀ first ∈ firstPass,
        (firstPass.filter (VisitedBefore partitionFileParser · first)).length <
            limit.getD (firstPass ++ secondPass).length ↔
          ∀ count ∈ limit, ((partitionedInRange partitionFileParser filesystem start
            value).filter (VisitedBefore partitionFileParser · first)).length < count := by
      intro first firstMem
      rw [← (permFirst.filter _).length_eq]
      cases limit with
      | some count => simp
      | none =>
          have self : ¬VisitedBefore partitionFileParser first first :=
            fun before => asymm first first before before
          have shorter : (firstPass.filter (VisitedBefore partitionFileParser · first)).length <
              firstPass.length := by
            apply List.length_filter_lt_length_iff_exists.mpr
            exact ⟨first, firstMem, by simpa using self⟩
          simp only [Option.getD_none, List.length_append, Option.not_mem_none, false_imp_iff,
            implies_true, iff_true]
          omega
    have laterMem : ∀ first later, (later ∈ firstPass ∧ VisitedBefore partitionFileParser first
        later) ∨ later ∈ secondPass ↔
          later ∈ filesInRange partitionFileParser filesystem start value ∧
            (later.parent = [] ∨ later.parent ≠ [] ∧
              VisitedBefore partitionFileParser first later) := by
      intro first later
      rw [secondMem, permFirst.mem_iff, partitionedInRange, List.mem_filter, decide_eq_true_iff]
      tauto
    simp only [mem_take_iff_rank visitedBefore asymm]
    constructor
    · intro inOrder first firstMem short later laterInRange isLater
      rw [← permFirst.mem_iff] at firstMem
      apply inOrder first ⟨firstMem, (rank first firstMem).mpr short⟩
      rw [laterMem]
      refine ⟨laterInRange, ?_⟩
      by_cases isTop : later.parent = []
      · exact Or.inl isTop
      · exact Or.inr ⟨isTop, isLater.resolve_left isTop⟩
    · rintro above first ⟨firstMem, short⟩ later isLater
      rw [laterMem] at isLater
      apply above first (permFirst.mem_iff.mp firstMem) ((rank first firstMem).mp short) later
        isLater.1
      exact isLater.2.imp_right And.right
  · constructor
    · rintro ⟨order, _, _, listed⟩
      exact absurd listed (listDirectoryPartitioned_ne_ok arguments startLe)
    · rintro ⟨valid, _⟩
      exact absurd valid arguments

instance : Decidable (Partitionable value) :=
  inferInstanceAs (Decidable (0 < value ∧ outerCapacity value ≤ unsignedInt64MaxValue))

instance : Decidable (ReadableNames partitionFileParser files) :=
  inferInstanceAs (Decidable (∀ file ∈ files, _))

end Listing

/--
A directory whose files from before it was partitioned are mixed with partitioned ones: the
search for the files in a range returns them by descending value, up to the limit, if and only
if its arguments are positive, it does not take a file for a partition directory, and no
partitioned file that it returns has a smaller value than a file it visits later.
-/
theorem listsByValue_mixedDirectory_iff {files : List ValuedFile} {unpartitioned : List String}
    {start : Option ℕ} {value : ℕ} {limit : Option ℕ} {partitionFileParser : String → Option ℕ}
    (valid : ∀ file ∈ files, Partitionable file.value)
    (readable : ReadableNames partitionFileParser files)
    (apart : ∀ file ∈ files, ∀ name ∈ unpartitioned, name ≠ (outerCapacity file.value).repr)
    (startLe : ∀ first ∈ start, first ≤ value) :
    ListsByValue partitionFileParser (mixedDirectory files unpartitioned) start value limit ↔
      (Partitionable value ∧ start ≠ some 0 ∧ limit ≠ some 0) ∧
        ¬EntersFile partitionFileParser (mixedDirectory files unpartitioned) start value limit ∧
          PartitionedAbove partitionFileParser (mixedDirectory files unpartitioned) start value
            limit :=
  (mixed_mixedDirectory valid apart).listsByValue_iff readable startLe

section Examples

/-- The first revision of an object. -/
def firstRevision : ValuedFile := ⟨1, "00000000000000000001_create_a.mpk"⟩

/-- The second revision of an object. -/
def secondRevision : ValuedFile := ⟨2, "00000000000000000002_update_b.mpk"⟩

/-- The revision numbers of the two file names. -/
def revisionOf (name : String) : Option ℕ :=
  if name = firstRevision.name then some 1
  else if name = secondRevision.name then some 2 else none

/--
A directory that was partitioned between its two revisions is searched correctly, also when
it holds a file without a revision number.
-/
theorem listsByValue_partitionedLater :
    ListsByValue revisionOf
      (mixedDirectory [secondRevision] [firstRevision.name, "latest.txt"]) none 2 (some 1) :=
  (listsByValue_mixedDirectory_iff (by decide) (by decide) (by decide +kernel)
    (by decide)).mpr ⟨by decide +kernel, by decide +kernel, by decide +kernel⟩

/-- Revision 2 is cut off in favour of revision 1, which is below a partition directory. -/
theorem not_listsByValue :
    ¬∀ (files : List ValuedFile) (unpartitioned : List String) (start : Option ℕ) (value : ℕ)
        (limit : Option ℕ) (partitionFileParser : String → Option ℕ),
      (∀ file ∈ files, Partitionable file.value) →
      ReadableNames partitionFileParser files →
      (∀ file ∈ files, ∀ name ∈ unpartitioned, name ≠ (outerCapacity file.value).repr) →
      (∀ first ∈ start, 0 < first ∧ first ≤ value) → Partitionable value →
      (∀ count ∈ limit, 0 < count) →
      ListsByValue partitionFileParser (mixedDirectory files unpartitioned) start value limit := by
  intro claim
  have listed := claim [firstRevision] [secondRevision.name] none 2 (some 1) revisionOf
    (by decide) (by decide) (by decide +kernel) (by simp) (by decide) (by simp)
  have mixed : Mixed (mixedDirectory [firstRevision] [secondRevision.name]) [firstRevision]
      [secondRevision.name] :=
    mixed_mixedDirectory (by decide) (by decide +kernel)
  rw [mixed.listsByValue_iff (by decide) (by simp)] at listed
  revert listed
  decide +kernel

end Examples

end Deltacat.Utils
