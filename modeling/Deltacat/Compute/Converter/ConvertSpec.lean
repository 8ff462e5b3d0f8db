import Deltacat.Compute.Converter.Convert

/-!
# What is converted

With the uniqueness of primary keys enforced, `convert` names the rows that an equality
delete deletes and the remaining rows that are followed by another one with the same
identifier, except that the rows of forgotten files neither are named nor follow another.
A row that follows one of a kept file is never forgotten, so that what is missing are the
rows of forgotten files that are followed by another one (`convert_iff`).
-/

namespace Deltacat.Compute.Converter

open Deltacat.Library Deltacat.Utils

universe u

variable {Partition Path Identifier Hash : Type u}

section Lost

/--
What remains of a file is forgotten if there are delete files that apply to it and not to a
newer file of another group, or if all the delete files that apply to it are empty.
-/
def IsLost (files deletes : List (DataFileWithSequence Path Identifier))
    (file : DataFileWithSequence Path Identifier) : Prop :=
  (∃ delete ∈ deletes, file.1 < delete.1) ∧
    ((∃ other ∈ files, (∃ delete ∈ deletes, other.1 < delete.1) ∧
        ∃ delete ∈ deletes, file.1 < delete.1 ∧ delete.1 ≤ other.1) ∨
      ∀ delete ∈ deletes, file.1 < delete.1 → delete.2.identifiers = [])

variable {files deletes : List (DataFileWithSequence Path Identifier)}
  {file : DataFileWithSequence Path Identifier}

/-- A file that is newer than one that is not forgotten is not forgotten either. -/
theorem not_isLost_of_le {newer : DataFileWithSequence Path Identifier} (newerMem : newer ∈ files)
    (notLost : ¬IsLost files deletes file) (le : file.1 ≤ newer.1) :
    ¬IsLost files deletes newer := by
  rintro ⟨⟨delete, deleteMem, less⟩, isLost⟩
  have hasDelete : ∃ delete ∈ deletes, file.1 < delete.1 := ⟨delete, deleteMem, le.trans_lt less⟩
  have known := not_and.mp notLost hasDelete
  rw [not_or] at known
  rcases isLost with ⟨other, otherMem, otherHasDelete, other', otherMem', otherLess, otherLe⟩ |
    isEmpty
  · exact known.1 ⟨other, otherMem, otherHasDelete, other', otherMem', le.trans_lt otherLess,
      otherLe⟩
  · apply known.2
    intro applicable applicableMem applies
    apply isEmpty applicable applicableMem
    by_contra notApplies
    exact known.1 ⟨newer, newerMem, ⟨delete, deleteMem, less⟩, applicable, applicableMem, applies,
      not_lt.mp notApplies⟩

variable [LinearOrder Path] [DecidableEq Identifier] {hash : Identifier → Hash}
  {setOrder : SetOrder (DataFileWithSequence Path Identifier)}

/-- A file is in the last group if what applies to it applies to all the files. -/
theorem applicableEqDeletes_eq_last_iff
    {last : List (DataFileWithSequence Path Identifier) ×
      List (DataFileWithSequence Path Identifier)}
    (isLast : (bucketGroups setOrder files deletes).getLast? = some last)
    (fileMem : file ∈ files) (hasDelete : ∃ delete ∈ deletes, file.1 < delete.1) :
    applicableEqDeletes (sortBySequenceNumber deletes) file = last.1 ↔
      ∀ other ∈ files, (∃ delete ∈ deletes, other.1 < delete.1) →
        ∀ delete ∈ deletes, file.1 < delete.1 → other.1 < delete.1 := by
  constructor
  · intro isKey other otherMem otherHasDelete delete deleteMem applies
    have inKey := mem_applicableEqDeletes.mpr ⟨mem_sortBySequenceNumber.mpr deleteMem, applies⟩
    rw [isKey] at inKey
    have inOther := (getLast?_bucketGroups isLast otherMem otherHasDelete).subset inKey
    exact (mem_applicableEqDeletes.mp inOther).2
  · intro appliesToAll
    obtain ⟨someDelete, someFile, mem_last⟩ := mem_bucketGroups (List.mem_of_getLast? isLast)
    obtain ⟨newest, newestMem⟩ := List.exists_mem_of_ne_nil _ someFile
    obtain ⟨newestMem, isKey⟩ := (mem_last newest).mp newestMem
    have newestHasDelete : ∃ delete ∈ deletes, newest.1 < delete.1 := by
      obtain ⟨delete, deleteMem⟩ := List.exists_mem_of_ne_nil _ someDelete
      rw [← isKey, mem_applicableEqDeletes, mem_sortBySequenceNumber] at deleteMem
      exact ⟨delete, deleteMem⟩
    have sublist := getLast?_bucketGroups isLast fileMem hasDelete
    rw [← isKey]
    apply List.filter_congr
    intro delete deleteMem
    rw [mem_sortBySequenceNumber] at deleteMem
    apply decide_eq_decide.mpr
    constructor
    · exact appliesToAll newest newestMem newestHasDelete delete deleteMem
    · intro applies
      have inKey := mem_applicableEqDeletes.mpr ⟨mem_sortBySequenceNumber.mpr deleteMem, applies⟩
      rw [isKey] at inKey
      exact (mem_applicableEqDeletes.mp (sublist.subset inKey)).2

/-- The files of the last group, unless their delete files are empty. -/
theorem exists_lastFiles (hash : Identifier → Hash)
    (setOrder : SetOrder (DataFileWithSequence Path Identifier))
    (files deletes : List (DataFileWithSequence Path Identifier)) [DecidableEq Hash] :
    ∃ lastFiles : List (DataFileWithSequence Path Identifier),
      (∀ file, file ∈ lastFiles ↔
        file ∈ files ∧ (∃ delete ∈ deletes, file.1 < delete.1) ∧ ¬IsLost files deletes file) ∧
      (lastFiles = [] ∨ ∃ last ∈ bucketGroups setOrder files deletes,
        lastFiles = sortDataFilesMaintainingOrder last.2) ∧
      (match (bucketGroups setOrder files deletes).getLast? with
        | none => []
        | some last => if recordsOf hash last.1 = [] then []
            else (sortDataFilesMaintainingOrder last.2).flatMap (remainingRows hash deletes)) =
        lastFiles.flatMap (remainingRows hash deletes) := by
  rcases isLast : (bucketGroups setOrder files deletes).getLast? with _ | last
  · refine ⟨[], fun file => ⟨(nomatch ·), ?_⟩, Or.inl rfl, rfl⟩
    rintro ⟨fileMem, hasDelete, -⟩
    obtain ⟨group, groupMem, -⟩ := exists_bucketGroup setOrder fileMem hasDelete
    rw [List.getLast?_eq_none_iff.mp isLast] at groupMem
    cases groupMem
  · have lastMem := List.mem_of_getLast? isLast
    obtain ⟨someDelete, -, mem_last⟩ := mem_bucketGroups lastMem
    have isLost_iff : ∀ file ∈ files, (∃ delete ∈ deletes, file.1 < delete.1) →
        (¬IsLost files deletes file ↔
          applicableEqDeletes (sortBySequenceNumber deletes) file = last.1 ∧
            recordsOf hash last.1 ≠ []) := by
      intro file fileMem hasDelete
      have isEmpty_iff : applicableEqDeletes (sortBySequenceNumber deletes) file = last.1 →
          (recordsOf hash last.1 = [] ↔
            ∀ delete ∈ deletes, file.1 < delete.1 → delete.2.identifiers = []) := by
        intro isKey
        simp only [recordsOf_eq_nil_iff, ← isKey, mem_applicableEqDeletes,
          mem_sortBySequenceNumber, and_imp]
      have sameKey := applicableEqDeletes_eq_last_iff isLast fileMem hasDelete
      rw [IsLost, and_iff_right hasDelete, not_or]
      constructor
      · rintro ⟨appliesToAll, notEmpty⟩
        have isKey := sameKey.mpr fun other otherMem otherHasDelete delete deleteMem applies =>
          not_le.mp fun le => appliesToAll
            ⟨other, otherMem, otherHasDelete, delete, deleteMem, applies, le⟩
        exact ⟨isKey, mt (isEmpty_iff isKey).mp notEmpty⟩
      · rintro ⟨isKey, notEmpty⟩
        refine ⟨?_, mt (isEmpty_iff isKey).mpr notEmpty⟩
        rintro ⟨other, otherMem, otherHasDelete, delete, deleteMem, applies, le⟩
        exact absurd (sameKey.mp isKey other otherMem otherHasDelete delete deleteMem applies)
          (not_lt.mpr le)
    by_cases noRow : recordsOf hash last.1 = []
    · refine ⟨[], fun file => ⟨(nomatch ·), ?_⟩, Or.inl rfl, ?_⟩
      · rintro ⟨fileMem, hasDelete, notLost⟩
        exact absurd noRow ((isLost_iff file fileMem hasDelete).mp notLost).2
      · dsimp only
        rw [if_pos noRow]
        rfl
    · refine ⟨sortDataFilesMaintainingOrder last.2, fun file => ?_, Or.inr ⟨last, lastMem, rfl⟩, ?_⟩
      · rw [mem_sortDataFilesMaintainingOrder, mem_last]
        constructor
        · rintro ⟨fileMem, isKey⟩
          have hasDelete : ∃ delete ∈ deletes, file.1 < delete.1 := by
            obtain ⟨delete, deleteMem⟩ := List.exists_mem_of_ne_nil _ someDelete
            rw [← isKey, mem_applicableEqDeletes, mem_sortBySequenceNumber] at deleteMem
            exact ⟨delete, deleteMem⟩
          exact ⟨fileMem, hasDelete, (isLost_iff file fileMem hasDelete).mpr ⟨isKey, noRow⟩⟩
        · rintro ⟨fileMem, hasDelete, notLost⟩
          exact ⟨fileMem, ((isLost_iff file fileMem hasDelete).mp notLost).1⟩
      · dsimp only
        rw [if_neg noRow]

end Lost

section Spec

variable [LinearOrder Path] [DecidableEq Identifier] [DecidableEq Hash]
  {setOrder : SetOrder (DataFileWithSequence Path Identifier)}
  {files deletes : List (DataFileWithSequence Path Identifier)}

/-- The files that are deduplicated besides the groups are those in no group. -/
theorem exists_getAdditionalApplicableDataFiles
    (setOrder : SetOrder (DataFileWithSequence Path Identifier))
    {files allFiles : List (DataFileWithSequence Path Identifier)}
    (deletes : List (DataFileWithSequence Path Identifier)) (nodup : files.Nodup)
    (perm : allFiles.Perm files) :
    ∃ others, getAdditionalApplicableDataFiles setOrder allFiles
        ((bucketGroups setOrder files deletes).map Prod.snd).flatten = .ok others ∧
      others.Nodup ∧
      ∀ file, file ∈ others ↔ file ∈ files ∧ ¬∃ delete ∈ deletes, file.1 < delete.1 := by
  let downloaded := ((bucketGroups setOrder files deletes).map Prod.snd).flatten
  have mem_downloaded : ∀ file, file ∈ downloaded ↔
      file ∈ files ∧ ∃ delete ∈ deletes, file.1 < delete.1 := by
    intro file
    simp only [downloaded, List.mem_flatten, List.mem_map, exists_exists_and_eq_and]
    exact exists_mem_bucketGroup
  have enough : ¬allFiles.dedup.length < downloaded.dedup.length := by
    apply not_lt.mpr
    apply (List.subperm_of_subset (List.nodup_dedup downloaded) ?_).length_le
    intro file fileMem
    rw [List.mem_dedup, mem_downloaded] at fileMem
    exact List.mem_dedup.mpr (perm.mem_iff.mpr fileMem.1)
  by_cases noneDownloaded : downloaded.isEmpty
  · refine ⟨allFiles, ?_, perm.nodup_iff.mpr nodup, fun file => ?_⟩
    · rw [getAdditionalApplicableDataFiles, if_neg enough, if_pos noneDownloaded]
    · rw [perm.mem_iff, iff_self_and]
      intro fileMem hasDelete
      have absurdMem := (mem_downloaded file).mpr ⟨fileMem, hasDelete⟩
      rw [List.isEmpty_iff.mp noneDownloaded] at absurdMem
      cases absurdMem
  · let rest := allFiles.filter fun file => file ∉ downloaded
    refine ⟨setOrder.iterate rest, ?_, ?_, fun file => ?_⟩
    · rw [getAdditionalApplicableDataFiles, if_neg enough, if_neg noneDownloaded]
    · exact (setOrder.perm rest).nodup_iff.mpr (List.nodup_dedup rest)
    · rw [(setOrder.perm rest).mem_iff, List.mem_dedup, List.mem_filter, decide_eq_true_iff,
        mem_downloaded, perm.mem_iff]
      constructor
      · rintro ⟨fileMem, notDownloaded⟩
        exact ⟨fileMem, fun hasDelete => notDownloaded ⟨fileMem, hasDelete⟩⟩
      · rintro ⟨fileMem, noDelete⟩
        exact ⟨fileMem, fun isDownloaded => noDelete isDownloaded.2⟩

/-- The files of the groups are different ones. -/
theorem nodup_groupFiles :
    ((bucketGroups setOrder files deletes).flatMap fun group =>
      sortDataFilesMaintainingOrder group.2).Nodup := by
  rw [List.nodup_flatMap]
  constructor
  · intro group groupMem
    exact (List.perm_insertionSort _ group.2).nodup_iff.mpr (nodup_bucketGroup groupMem)
  · have different : (bucketGroups setOrder files deletes).Pairwise fun left right =>
        left.1 ≠ right.1 := List.pairwise_map.mp nodup_map_fst_bucketGroups
    apply different.imp_of_mem
    intro left right leftMem rightMem differ file inLeft inRight
    rw [mem_sortDataFilesMaintainingOrder] at inLeft inRight
    have isLeft := (((mem_bucketGroups leftMem).2.2 file).mp inLeft).2
    have isRight := (((mem_bucketGroups rightMem).2.2 file).mp inRight).2
    exact differ (isLeft.symm.trans isRight)

omit [DecidableEq Identifier] in
/-- Nothing can be deduplicated if there is neither a remaining row nor a file. -/
theorem dedupeDataFiles_eq (concat : RecordConcat Path Hash) (hash : Identifier → Hash)
    (files : List (DataFileWithSequence Path Identifier))
    (remaining : Option (List (Record Path Hash))) :
    dedupeDataFiles concat hash files remaining =
      if remaining.getD [] = [] ∧ files = [] then .error .arrowInvalid
      else .ok (writePositionDeleteFiles (allButLast (·.identifierColumnsHashed)
        (remaining.getD [] ++ recordsOf hash (sortDataFilesMaintainingOrder files)))) := by
  let tables := (remaining.filter fun table => !table.isEmpty).toList
  let downloaded := (sortDataFilesMaintainingOrder files).map fun file =>
    downloadDataTable hash file.2
  have flatten : tables.flatten = remaining.getD [] := by
    rcases remaining with _ | _ | ⟨row, rows⟩
    · rfl
    · rfl
    · exact List.append_nil (row :: rows)
  have noTable_iff : tables ++ downloaded = [] ↔ remaining.getD [] = [] ∧ files = [] := by
    have noRemaining : tables = [] ↔ remaining.getD [] = [] := by
      rcases remaining with _ | _ | ⟨row, rows⟩
      · simp [tables]
      · simp [tables]
      · exact iff_of_false (List.cons_ne_nil _ _) (List.cons_ne_nil _ _)
    have noFile : downloaded = [] ↔ files = [] := by
      rw [List.map_eq_nil_iff, ← List.length_eq_zero_iff, sortDataFilesMaintainingOrder,
        List.length_insertionSort, List.length_eq_zero_iff]
    rw [List.append_eq_nil_iff, noRemaining, noFile]
  change (concat.concatTables (tables ++ downloaded) >>= fun finalDataToDedupe => Except.ok
    (writePositionDeleteFiles (allButLast (·.identifierColumnsHashed) finalDataToDedupe))) = _
  by_cases noTable : remaining.getD [] = [] ∧ files = []
  · rw [if_pos noTable, noTable_iff.mpr noTable, concat.nil]
    rfl
  · rw [if_neg noTable, concatTables_of_ne_nil concat (mt noTable_iff.mp noTable),
      List.flatten_append, flatten]
    rfl

/-- A deduplicated file is in no group, or its group is the last one. -/
theorem exists_convert (concat : RecordConcat Path Hash) (hash : Identifier → Hash)
    (setOrder : SetOrder (DataFileWithSequence Path Identifier)) (bucket : Bucket Path Identifier)
    (deletes : List (DataFileWithSequence Path Identifier))
    {allFiles : List (DataFileWithSequence Path Identifier)} (perm : allFiles.Perm bucket.files) :
    let groups := bucketGroups setOrder bucket.files deletes
    ∃ groupFiles keptFiles : List (DataFileWithSequence Path Identifier),
      groupFiles.Nodup ∧
      (∀ file, file ∈ groupFiles ↔
        file ∈ bucket.files ∧ ∃ delete ∈ deletes, file.1 < delete.1) ∧
      (keptFiles.Pairwise fun left right => writeOrder left < writeOrder right) ∧
      (∀ file, file ∈ keptFiles ↔ file ∈ bucket.files ∧ ¬IsLost bucket.files deletes file) ∧
      convert concat hash setOrder true ⟨allFiles, groups.map Prod.snd, groups.map Prod.fst⟩ =
        if keptFiles.flatMap (remainingRows hash deletes) = [] ∧
            ∀ file ∈ bucket.files, ∃ delete ∈ deletes, file.1 < delete.1 then .error .arrowInvalid
        else .ok (writePositionDeleteFiles (groupFiles.flatMap (deletedRows hash deletes)) ++
          writePositionDeleteFiles (allButLast (·.identifierColumnsHashed)
            (keptFiles.flatMap (remainingRows hash deletes)))) := by
  intro groups
  have nodup : bucket.files.Nodup := List.Nodup.of_map _ bucket.distinct
  obtain ⟨posDeletes, remaining, isConverted, isPosDeletes, isRemaining⟩ :=
    exists_convertEqualityDeletes concat hash setOrder bucket.files deletes allFiles
  obtain ⟨lastFiles, mem_lastFiles, isLastGroup, isLast⟩ :=
    exists_lastFiles hash setOrder bucket.files deletes
  obtain ⟨others, isOthers, nodupOthers, mem_others⟩ :=
    exists_getAdditionalApplicableDataFiles setOrder deletes nodup perm
  have distinctOf : ∀ {files : List (DataFileWithSequence Path Identifier)}, files.Nodup →
      (∀ file ∈ files, file ∈ bucket.files) → (files.map (·.2.filePath)).Nodup :=
    fun nodup inBucket => nodup.map_on fun left leftMem right rightMem samePath =>
      List.inj_on_of_nodup_map bucket.distinct (inBucket left leftMem) (inBucket right rightMem)
        samePath
  have pairwiseOthers := pairwise_sortDataFilesMaintainingOrder
    (distinctOf nodupOthers fun file fileMem => ((mem_others file).mp fileMem).1)
  have pairwiseLast : lastFiles.Pairwise fun left right => writeOrder left < writeOrder right := by
    rcases isLastGroup with noFile | ⟨last, lastMem, isSorted⟩
    · rw [noFile]
      exact List.Pairwise.nil
    · rw [isSorted]
      exact pairwise_sortDataFilesMaintainingOrder (distinctOf (nodup_bucketGroup lastMem)
        fun file fileMem => (((mem_bucketGroups lastMem).2.2 file).mp fileMem).1)
  have recordsOfOthers : recordsOf hash (sortDataFilesMaintainingOrder others) =
      (sortDataFilesMaintainingOrder others).flatMap (remainingRows hash deletes) := by
    apply List.flatMap_congr
    intro file fileMem
    rw [mem_sortDataFilesMaintainingOrder, mem_others] at fileMem
    symm
    rw [remainingRows, List.filter_eq_self]
    rintro record - 
    apply decide_eq_true
    rintro ⟨delete, deleteMem, applies, -⟩
    exact fileMem.2 ⟨delete, deleteMem, applies⟩
  refine ⟨groups.flatMap fun group => sortDataFilesMaintainingOrder group.2,
    lastFiles ++ sortDataFilesMaintainingOrder others, nodup_groupFiles, ?_, ?_, ?_, ?_⟩
  · intro file
    simp only [List.mem_flatMap, mem_sortDataFilesMaintainingOrder]
    exact exists_mem_bucketGroup
  · rw [List.pairwise_append]
    refine ⟨pairwiseLast, pairwiseOthers, ?_⟩
    intro left leftMem right rightMem
    obtain ⟨-, ⟨delete, deleteMem, applies⟩, -⟩ := (mem_lastFiles left).mp leftMem
    rw [mem_sortDataFilesMaintainingOrder, mem_others] at rightMem
    have notApplies := fun less => rightMem.2 ⟨delete, deleteMem, less⟩
    exact Prod.Lex.toLex_lt_toLex.mpr (Or.inl (applies.trans_le (not_lt.mp notApplies)))
  · intro file
    rw [List.mem_append, mem_sortDataFilesMaintainingOrder, mem_lastFiles, mem_others]
    by_cases hasDelete : ∃ delete ∈ deletes, file.1 < delete.1
    · simp [hasDelete]
    · simp [hasDelete, IsLost]
  · have remaining_eq : remaining.getD [] = lastFiles.flatMap (remainingRows hash deletes) :=
      isRemaining.trans isLast
    have isDeduped := dedupeDataFiles_eq concat hash others remaining
    rw [remaining_eq, recordsOfOthers, ← List.flatMap_append] at isDeduped
    have noTable_iff :
        lastFiles.flatMap (remainingRows hash deletes) = [] ∧ others = [] ↔
          (lastFiles ++ sortDataFilesMaintainingOrder others).flatMap
              (remainingRows hash deletes) = [] ∧
            ∀ file ∈ bucket.files, ∃ delete ∈ deletes, file.1 < delete.1 := by
      have noOther :
          others = [] ↔ ∀ file ∈ bucket.files, ∃ delete ∈ deletes, file.1 < delete.1 := by
        simp only [List.eq_nil_iff_forall_not_mem, mem_others, not_and, not_not]
      rw [← noOther, List.flatMap_append, List.append_eq_nil_iff, and_assoc]
      constructor
      · rintro ⟨noRemaining, rfl⟩
        exact ⟨noRemaining, rfl, rfl⟩
      · rintro ⟨noRemaining, -, noOther⟩
        exact ⟨noRemaining, noOther⟩
    simp only [noTable_iff] at isDeduped
    simp only [convert, groups, isConverted, isOthers, isDeduped, isPosDeletes, bind, Except.bind,
      if_true]
    split_ifs
    · rfl
    · rfl

end Spec

section Result

/-- No delete file that applies to the file names the identifier. -/
def Remains (deletes : List (DataFileWithSequence Path Identifier))
    (file : DataFileWithSequence Path Identifier) (identifier : Identifier) : Prop :=
  ∀ delete ∈ deletes, file.1 < delete.1 → identifier ∉ delete.2.identifiers

instance [DecidableEq Identifier] (deletes : List (DataFileWithSequence Path Identifier))
    (file : DataFileWithSequence Path Identifier) (identifier : Identifier) :
    Decidable (Remains deletes file identifier) :=
  inferInstanceAs (Decidable (∀ _ ∈ _, _))

variable [LinearOrder Path]

/-- A newer row with the identifier remains. -/
def HasNewer (files deletes : List (DataFileWithSequence Path Identifier))
    (file : DataFileWithSequence Path Identifier) (pos : ℕ) (identifier : Identifier) : Prop :=
  ∃ other ∈ files, ∃ otherPos : ℕ, other.2.identifiers[otherPos]? = some identifier ∧
    Remains deletes other identifier ∧
      toLex (writeOrder file, pos) < toLex (writeOrder other, otherPos)

/-- The position is that of a row that is deleted, or that is not the newest of its key. -/
def MustGo (files deletes : List (DataFileWithSequence Path Identifier))
    (enforcePrimaryKeyUniqueness : Bool) (position : Path × ℕ) : Prop :=
  ∃ file ∈ files, file.2.filePath = position.1 ∧ ∃ identifier,
    file.2.identifiers[position.2]? = some identifier ∧
      (¬Remains deletes file identifier ∨
        enforcePrimaryKeyUniqueness = true ∧ HasNewer files deletes file position.2 identifier)

/-- The conversion succeeds and names exactly the rows that must go, each of them once. -/
def NamesWhatMustGo (files deletes : List (DataFileWithSequence Path Identifier))
    (enforcePrimaryKeyUniqueness : Bool) (result : Except Error (List (Path × ℕ))) : Prop :=
  ∃ positions, result = .ok positions ∧ positions.Nodup ∧
    ∀ position, position ∈ positions ↔ MustGo files deletes enforcePrimaryKeyUniqueness position

variable [DecidableEq Identifier] [DecidableEq Hash] {hash : Identifier → Hash}
  {files deletes : List (DataFileWithSequence Path Identifier)}
  {file : DataFileWithSequence Path Identifier} {record : Record Path Hash}

omit [LinearOrder Path] [DecidableEq Identifier] [DecidableEq Hash] in
theorem isDeleted_iff (injective : Function.Injective hash) {identifier : Identifier}
    (isHash : record.identifierColumnsHashed = hash identifier) :
    IsDeleted hash deletes file record ↔ ¬Remains deletes file identifier := by
  simp only [IsDeleted, Remains, isHash, List.mem_map, not_forall, not_not]
  constructor
  · rintro ⟨delete, deleteMem, applies, other, otherMem, sameHash⟩
    exact ⟨delete, deleteMem, applies, injective sameHash ▸ otherMem⟩
  · rintro ⟨delete, deleteMem, applies, identifierMem⟩
    exact ⟨delete, deleteMem, applies, identifier, identifierMem, rfl⟩

omit [LinearOrder Path] [DecidableEq Identifier] in
theorem mem_deletedRows (injective : Function.Injective hash) :
    record ∈ deletedRows hash deletes file ↔ record.filePath = file.2.filePath ∧
      ∃ identifier, file.2.identifiers[record.pos]? = some identifier ∧
        record.identifierColumnsHashed = hash identifier ∧ ¬Remains deletes file identifier := by
  rw [deletedRows, List.mem_filter, mem_downloadDataTable, decide_eq_true_iff, and_assoc]
  apply and_congr_right
  intro _
  constructor
  · rintro ⟨⟨identifier, isRecord, isHash⟩, isDeleted⟩
    exact ⟨identifier, isRecord, isHash, (isDeleted_iff injective isHash).mp isDeleted⟩
  · rintro ⟨identifier, isRecord, isHash, isDeleted⟩
    exact ⟨⟨identifier, isRecord, isHash⟩, (isDeleted_iff injective isHash).mpr isDeleted⟩

omit [LinearOrder Path] [DecidableEq Identifier] in
theorem mem_remainingRows (injective : Function.Injective hash) :
    record ∈ remainingRows hash deletes file ↔ record.filePath = file.2.filePath ∧
      ∃ identifier, file.2.identifiers[record.pos]? = some identifier ∧
        record.identifierColumnsHashed = hash identifier ∧ Remains deletes file identifier := by
  rw [remainingRows, List.mem_filter, mem_downloadDataTable, decide_eq_true_iff, and_assoc]
  apply and_congr_right
  intro _
  constructor
  · rintro ⟨⟨identifier, isRecord, isHash⟩, remains⟩
    exact ⟨identifier, isRecord, isHash,
      not_not.mp (mt (isDeleted_iff injective isHash).mpr remains)⟩
  · rintro ⟨identifier, isRecord, isHash, remains⟩
    exact ⟨⟨identifier, isRecord, isHash⟩,
      fun isDeleted => (isDeleted_iff injective isHash).mp isDeleted remains⟩

omit [LinearOrder Path] [DecidableEq Identifier] in
theorem remainingRows_sublist :
    (files.flatMap (remainingRows hash deletes)).Sublist (recordsOf hash files) :=
  List.Sublist.flatMap_right files fun _ _ => List.filter_sublist

omit [LinearOrder Path] [DecidableEq Identifier] in
theorem deletedRows_sublist :
    (files.flatMap (deletedRows hash deletes)).Sublist (recordsOf hash files) :=
  List.Sublist.flatMap_right files fun _ _ => List.filter_sublist

omit [DecidableEq Identifier] in
/-- What is deduplicated of some files are the rows that remain and have a newer one there. -/
theorem mem_deduplicated (injective : Function.Injective hash)
    (ordered : files.Pairwise fun left right => writeOrder left < writeOrder right)
    (distinct : (files.map (·.2.filePath)).Nodup) {position : Path × ℕ} :
    position ∈ writePositionDeleteFiles (allButLast (·.identifierColumnsHashed)
        (files.flatMap (remainingRows hash deletes))) ↔
      ∃ file ∈ files, file.2.filePath = position.1 ∧ ∃ identifier,
        file.2.identifiers[position.2]? = some identifier ∧ Remains deletes file identifier ∧
          HasNewer files deletes file position.2 identifier := by
  have pairwise : (files.flatMap (remainingRows hash deletes)).Pairwise
      (RecordOrder (WrittenBefore files)) := by
    apply List.Pairwise.sublist remainingRows_sublist
    apply pairwise_flatMap_downloadDataTable (WrittenBefore files)
    exact ordered.imp_of_mem fun {left right} leftMem rightMem less =>
      ⟨left, leftMem, right, rightMem, rfl, rfl, less⟩
  have asymm : ∀ left right : Record Path Hash, RecordOrder (WrittenBefore files) left right →
      ¬RecordOrder (WrittenBefore files) right left :=
    fun _ _ => RecordOrder.asymm fun _ _ => WrittenBefore.asymm distinct
  have order_iff : ∀ left ∈ files, ∀ right ∈ files, ∀ first second : Record Path Hash,
      first.filePath = left.2.filePath → second.filePath = right.2.filePath →
        (RecordOrder (WrittenBefore files) first second ↔
          toLex (writeOrder left, first.pos) < toLex (writeOrder right, second.pos)) := by
    intro left leftMem right rightMem first second isFirst isSecond
    rw [RecordOrder, Prod.Lex.toLex_lt_toLex, isFirst, isSecond]
    have sameFile : left.2.filePath = right.2.filePath ↔ writeOrder left = writeOrder right := by
      constructor
      · intro samePath
        rw [List.inj_on_of_nodup_map distinct leftMem rightMem samePath]
      · exact congrArg fun order : ℤ ×ₗ Path => (ofLex order).2
    have writtenBefore : WrittenBefore files left.2.filePath right.2.filePath ↔
        writeOrder left < writeOrder right := by
      constructor
      · rintro ⟨left', leftMem', right', rightMem', samePath, samePath', less⟩
        have isLeft := List.inj_on_of_nodup_map distinct leftMem' leftMem samePath
        have isRight := List.inj_on_of_nodup_map distinct rightMem' rightMem samePath'
        rwa [isLeft, isRight] at less
      · exact fun less => ⟨left, leftMem, right, rightMem, rfl, rfl, less⟩
    rw [writtenBefore, sameFile]
  have mem_rows : ∀ record : Record Path Hash, record ∈ files.flatMap (remainingRows hash deletes) ↔
      ∃ file ∈ files, record.filePath = file.2.filePath ∧ ∃ identifier,
        file.2.identifiers[record.pos]? = some identifier ∧
          record.identifierColumnsHashed = hash identifier ∧ Remains deletes file identifier := by
    intro record
    simp only [List.mem_flatMap, mem_remainingRows injective]
  simp only [mem_writePositionDeleteFiles, mem_allButLast_iff asymm pairwise, mem_rows]
  constructor
  · rintro ⟨record, ⟨⟨file, fileMem, isPath, identifier, isRecord, isHash, remains⟩,
      other, ⟨otherFile, otherMem, otherPath, otherIdentifier, isOther, otherHash, otherRemains⟩,
      sameHash, isBefore⟩, rfl⟩
    have sameIdentifier : otherIdentifier = identifier :=
      injective (otherHash.symm.trans (sameHash.trans isHash))
    subst sameIdentifier
    exact ⟨file, fileMem, isPath.symm, otherIdentifier, isRecord, remains, otherFile, otherMem,
      other.pos, isOther, otherRemains,
      (order_iff file fileMem otherFile otherMem record other isPath otherPath).mp isBefore⟩
  · rintro ⟨file, fileMem, isPath, identifier, isRecord, remains, otherFile, otherMem, otherPos,
      isOther, otherRemains, less⟩
    let record : Record Path Hash := ⟨hash identifier, position.1, position.2⟩
    let other : Record Path Hash := ⟨hash identifier, otherFile.2.filePath, otherPos⟩
    refine ⟨record, ⟨⟨file, fileMem, isPath.symm, identifier, isRecord, rfl, remains⟩, other,
      ⟨otherFile, otherMem, rfl, identifier, isOther, rfl, otherRemains⟩, rfl, ?_⟩, rfl⟩
    exact (order_iff file fileMem otherFile otherMem record other isPath.symm rfl).mpr less

omit [DecidableEq Identifier] in
/-- What is converted of some files are the rows that do not remain. -/
theorem mem_converted (injective : Function.Injective hash) {position : Path × ℕ} :
    position ∈ writePositionDeleteFiles (files.flatMap (deletedRows hash deletes)) ↔
      ∃ file ∈ files, file.2.filePath = position.1 ∧ ∃ identifier,
        file.2.identifiers[position.2]? = some identifier ∧ ¬Remains deletes file identifier := by
  simp only [mem_writePositionDeleteFiles, List.mem_flatMap, mem_deletedRows injective]
  constructor
  · rintro ⟨record, ⟨file, fileMem, isPath, identifier, isRecord, -, notRemains⟩, rfl⟩
    exact ⟨file, fileMem, isPath.symm, identifier, isRecord, notRemains⟩
  · rintro ⟨file, fileMem, isPath, identifier, isRecord, notRemains⟩
    exact ⟨⟨hash identifier, position.1, position.2⟩,
      ⟨file, fileMem, isPath.symm, identifier, isRecord, rfl, notRemains⟩, rfl⟩

omit [DecidableEq Identifier] [DecidableEq Hash] in
theorem nodup_writePositionDeleteFiles (distinct : (files.map (·.2.filePath)).Nodup)
    {records : List (Record Path Hash)} (sublist : records.Sublist (recordsOf hash files)) :
    (writePositionDeleteFiles records).Nodup :=
  (List.perm_insertionSort _ _).nodup_iff.mpr ((nodup_positions distinct).sublist (sublist.map _))

/-- The newest row of a forgotten file is not followed by another one. -/
def HoldsWhen (files deletes : List (DataFileWithSequence Path Identifier))
    (enforcePrimaryKeyUniqueness : Bool) : Prop :=
  enforcePrimaryKeyUniqueness = true ∧
    ((∃ file ∈ files, ¬∃ delete ∈ deletes, file.1 < delete.1) ∨
      ∃ file ∈ files, ¬IsLost files deletes file ∧
        ∃ identifier ∈ file.2.identifiers, Remains deletes file identifier) ∧
    ∀ file ∈ files, IsLost files deletes file → ∀ (pos : ℕ) (identifier : Identifier),
      file.2.identifiers[pos]? = some identifier → Remains deletes file identifier →
        ¬HasNewer files deletes file pos identifier

omit [LinearOrder Path] [DecidableEq Identifier] [DecidableEq Hash] in
/-- Some of the files of a bucket have different paths. -/
theorem nodup_map_filePath (distinct : (files.map (·.2.filePath)).Nodup)
    {someFiles : List (DataFileWithSequence Path Identifier)} (nodup : someFiles.Nodup)
    (inFiles : ∀ file ∈ someFiles, file ∈ files) : (someFiles.map (·.2.filePath)).Nodup :=
  nodup.map_on fun left leftMem right rightMem samePath =>
    List.inj_on_of_nodup_map distinct (inFiles left leftMem) (inFiles right rightMem) samePath

section Positions

variable (injective : Function.Injective hash) (distinct : (files.map (·.2.filePath)).Nodup)
  {groupFiles keptFiles : List (DataFileWithSequence Path Identifier)}
  (mem_groupFiles : ∀ file, file ∈ groupFiles ↔
    file ∈ files ∧ ∃ delete ∈ deletes, file.1 < delete.1)
  (ordered : keptFiles.Pairwise fun left right => writeOrder left < writeOrder right)
  (mem_keptFiles : ∀ file, file ∈ keptFiles ↔ file ∈ files ∧ ¬IsLost files deletes file)

include injective distinct mem_groupFiles ordered mem_keptFiles

omit [DecidableEq Identifier] in
/-- No row that remains in a forgotten file is found. -/
theorem mem_converted_append_deduplicated {position : Path × ℕ} :
    position ∈ writePositionDeleteFiles (groupFiles.flatMap (deletedRows hash deletes)) ++
        writePositionDeleteFiles (allButLast (·.identifierColumnsHashed)
          (keptFiles.flatMap (remainingRows hash deletes))) ↔
      ∃ file ∈ files, file.2.filePath = position.1 ∧ ∃ identifier,
        file.2.identifiers[position.2]? = some identifier ∧ (¬Remains deletes file identifier ∨
          ¬IsLost files deletes file ∧ Remains deletes file identifier ∧
            HasNewer files deletes file position.2 identifier) := by
  have distinctKept := nodup_map_filePath distinct
    (ordered.imp fun less same => less.ne (congrArg _ same))
    fun file fileMem => ((mem_keptFiles file).mp fileMem).1
  rw [List.mem_append, mem_converted injective, mem_deduplicated injective ordered distinctKept]
  constructor
  · rintro (⟨file, fileMem, isPath, identifier, isRecord, notRemains⟩ |
      ⟨file, fileMem, isPath, identifier, isRecord, remains, hasNewer⟩)
    · exact ⟨file, ((mem_groupFiles file).mp fileMem).1, isPath, identifier, isRecord,
        Or.inl notRemains⟩
    · obtain ⟨other, otherMem, newer⟩ := hasNewer
      obtain ⟨inFiles, notLost⟩ := (mem_keptFiles file).mp fileMem
      exact ⟨file, inFiles, isPath, identifier, isRecord, Or.inr ⟨notLost, remains, other,
        ((mem_keptFiles other).mp otherMem).1, newer⟩⟩
  · rintro ⟨file, fileMem, isPath, identifier, isRecord, notRemains | ⟨notLost, remains, hasNewer⟩⟩
    · have hasDelete : ∃ delete ∈ deletes, file.1 < delete.1 := by
        simp only [Remains, not_forall, not_not] at notRemains
        obtain ⟨delete, deleteMem, applies, -⟩ := notRemains
        exact ⟨delete, deleteMem, applies⟩
      exact Or.inl ⟨file, (mem_groupFiles file).mpr ⟨fileMem, hasDelete⟩, isPath, identifier,
        isRecord, notRemains⟩
    · obtain ⟨other, otherMem, otherPos, isOther, otherRemains, less⟩ := hasNewer
      have le : file.1 ≤ other.1 := by
        have notGreater := (Prod.Lex.toLex_le_toLex'.mp less.le).1
        exact (Prod.Lex.toLex_le_toLex'.mp notGreater).1
      have otherNotLost := not_isLost_of_le otherMem notLost le
      exact Or.inr ⟨file, (mem_keptFiles file).mpr ⟨fileMem, notLost⟩, isPath, identifier, isRecord,
        remains, other, (mem_keptFiles other).mpr ⟨otherMem, otherNotLost⟩, otherPos, isOther,
        otherRemains, less⟩

omit [DecidableEq Identifier] in
theorem nodup_converted_append_deduplicated (nodup : groupFiles.Nodup) :
    (writePositionDeleteFiles (groupFiles.flatMap (deletedRows hash deletes)) ++
        writePositionDeleteFiles (allButLast (·.identifierColumnsHashed)
          (keptFiles.flatMap (remainingRows hash deletes)))).Nodup := by
  have distinctGroups := nodup_map_filePath distinct nodup
    fun file fileMem => ((mem_groupFiles file).mp fileMem).1
  have distinctKept := nodup_map_filePath distinct
    (ordered.imp fun less same => less.ne (congrArg _ same))
    fun file fileMem => ((mem_keptFiles file).mp fileMem).1
  apply List.Nodup.append
  · exact nodup_writePositionDeleteFiles distinctGroups deletedRows_sublist
  · exact nodup_writePositionDeleteFiles distinctKept
      ((allButLast_sublist _ _).trans remainingRows_sublist)
  · intro position inConverted inDeduplicated
    rw [mem_converted injective] at inConverted
    rw [mem_deduplicated injective ordered distinctKept] at inDeduplicated
    obtain ⟨file, fileMem, isPath, identifier, isRecord, notRemains⟩ := inConverted
    obtain ⟨file', fileMem', isPath', identifier', isRecord', remains, -⟩ := inDeduplicated
    have sameFile := List.inj_on_of_nodup_map distinct ((mem_groupFiles file).mp fileMem).1
      ((mem_keptFiles file').mp fileMem').1 (isPath.trans isPath'.symm)
    subst sameFile
    rw [isRecord] at isRecord'
    cases isRecord'
    exact notRemains remains

end Positions

/-- The groups of a bucket are converted into the positions that are found in them. -/
theorem namesWhatMustGo_iff (concat : RecordConcat Path Hash)
    (injective : Function.Injective hash)
    (setOrder : SetOrder (DataFileWithSequence Path Identifier)) (bucket : Bucket Path Identifier)
    (deletes : List (DataFileWithSequence Path Identifier))
    {allFiles : List (DataFileWithSequence Path Identifier)} (perm : allFiles.Perm bucket.files)
    (enforcePrimaryKeyUniqueness : Bool) :
    let groups := bucketGroups setOrder bucket.files deletes
    NamesWhatMustGo bucket.files deletes enforcePrimaryKeyUniqueness
        (convert concat hash setOrder enforcePrimaryKeyUniqueness
          ⟨allFiles, groups.map Prod.snd, groups.map Prod.fst⟩) ↔
      HoldsWhen bucket.files deletes enforcePrimaryKeyUniqueness := by
  intro groups
  cases enforcePrimaryKeyUniqueness with
  | false =>
      obtain ⟨posDeletes, remaining, isConverted, -, -⟩ :=
        exists_convertEqualityDeletes concat hash setOrder bucket.files deletes allFiles
      have raises : convert concat hash setOrder false ⟨allFiles, groups.map Prod.snd,
          groups.map Prod.fst⟩ = .error .unboundLocalError := by
        simp only [convert, groups, isConverted, bind, Except.bind]
        rfl
      rw [raises]
      refine iff_of_false ?_ fun holds => Bool.false_ne_true holds.1
      rintro ⟨positions, isOk, -⟩
      cases isOk
  | true =>
      obtain ⟨groupFiles, keptFiles, nodup, mem_groupFiles, ordered, mem_keptFiles, isResult⟩ :=
        exists_convert concat hash setOrder bucket deletes perm
      rw [isResult]
      have someKept : keptFiles.flatMap (remainingRows hash deletes) = [] ↔
          ¬∃ file ∈ bucket.files, ¬IsLost bucket.files deletes file ∧
            ∃ identifier ∈ file.2.identifiers, Remains deletes file identifier := by
        simp only [List.eq_nil_iff_forall_not_mem, List.mem_flatMap, mem_keptFiles, not_exists]
        constructor
        · rintro noRow file ⟨fileMem, notLost, identifier, identifierMem, remains⟩
          obtain ⟨pos, isRecord⟩ := List.getElem?_of_mem identifierMem
          exact noRow ⟨hash identifier, file.2.filePath, pos⟩ file ⟨⟨fileMem, notLost⟩,
            (mem_remainingRows injective).mpr ⟨rfl, identifier, isRecord, rfl, remains⟩⟩
        · rintro noRow record file ⟨⟨fileMem, notLost⟩, inRows⟩
          obtain ⟨-, identifier, isRecord, -, remains⟩ := (mem_remainingRows injective).mp inRows
          exact noRow file ⟨fileMem, notLost, identifier, List.mem_of_getElem? isRecord, remains⟩
      split_ifs with noTable
      · refine iff_of_false ?_ ?_
        · rintro ⟨positions, isOk, -⟩
          cases isOk
        · rintro ⟨-, ⟨file, fileMem, noDelete⟩ | hasKept, -⟩
          · exact noDelete (noTable.2 file fileMem)
          · exact someKept.mp noTable.1 hasKept
      · have hasTable : (∃ file ∈ bucket.files, ¬∃ delete ∈ deletes, file.1 < delete.1) ∨
            ∃ file ∈ bucket.files, ¬IsLost bucket.files deletes file ∧
              ∃ identifier ∈ file.2.identifiers, Remains deletes file identifier := by
          rw [someKept] at noTable
          by_contra neither
          rw [not_or] at neither
          exact noTable ⟨neither.2, by simpa using neither.1⟩
        constructor
        · rintro ⟨positions, isOk, -, isPosition⟩
          cases isOk
          refine ⟨rfl, hasTable, ?_⟩
          intro file fileMem isLost pos identifier isRecord remains hasNewer
          have mustGo : MustGo bucket.files deletes true (file.2.filePath, pos) :=
            ⟨file, fileMem, rfl, identifier, isRecord, Or.inr ⟨rfl, hasNewer⟩⟩
          have isFound := (isPosition _).mpr mustGo
          rw [mem_converted_append_deduplicated injective bucket.distinct mem_groupFiles ordered
            mem_keptFiles] at isFound
          obtain ⟨file', fileMem', isPath, identifier', isRecord', isFound⟩ := isFound
          have sameFile := List.inj_on_of_nodup_map bucket.distinct fileMem' fileMem isPath
          subst sameFile
          rw [isRecord] at isRecord'
          cases isRecord'
          rcases isFound with notRemains | ⟨notLost, -⟩
          · exact notRemains remains
          · exact notLost isLost
        · rintro ⟨-, -, noneLost⟩
          refine ⟨_, rfl, nodup_converted_append_deduplicated injective bucket.distinct
            mem_groupFiles ordered mem_keptFiles nodup, fun position => ?_⟩
          rw [mem_converted_append_deduplicated injective bucket.distinct mem_groupFiles ordered
            mem_keptFiles]
          constructor
          · rintro ⟨file, fileMem, isPath, identifier, isRecord, notRemains | ⟨-, -, hasNewer⟩⟩
            · exact ⟨file, fileMem, isPath, identifier, isRecord, Or.inl notRemains⟩
            · exact ⟨file, fileMem, isPath, identifier, isRecord, Or.inr ⟨rfl, hasNewer⟩⟩
          · rintro ⟨file, fileMem, isPath, identifier, isRecord, mustGo⟩
            refine ⟨file, fileMem, isPath, identifier, isRecord, ?_⟩
            by_cases remains : Remains deletes file identifier
            · have hasNewer := (mustGo.resolve_left (not_not.mpr remains)).2
              have notLost := fun isLost =>
                noneLost file fileMem isLost position.2 identifier isRecord remains hasNewer
              exact Or.inr ⟨notLost, remains, hasNewer⟩
            · exact Or.inl remains

/--
A bucket is converted as it should be if and only if the uniqueness of primary keys is
enforced, there is something to deduplicate, and no row of a forgotten file is followed
by another one with its identifier.
-/
theorem convert_iff (concat : RecordConcat Path Hash) (injective : Function.Injective hash)
    (setOrder : SetOrder (DataFileWithSequence Path Identifier))
    (dataFileDict : Partition → Option (Bucket Path Identifier))
    (equalityDeleteDict : Partition → Option (List (DataFileWithSequence Path Identifier)))
    (enforcePrimaryKeyUniqueness : Bool) {partitionValue : Partition}
    {bucket : Bucket Path Identifier} (isBucket : dataFileDict partitionValue = some bucket) :
    (∃ convertInputFiles,
        groupAllFilesToEachBucket setOrder (fun value => (dataFileDict value).map (·.files))
            equalityDeleteDict partitionValue = some convertInputFiles ∧
          NamesWhatMustGo bucket.files ((equalityDeleteDict partitionValue).getD [])
            enforcePrimaryKeyUniqueness
            (convert concat hash setOrder enforcePrimaryKeyUniqueness convertInputFiles)) ↔
      HoldsWhen bucket.files ((equalityDeleteDict partitionValue).getD [])
        enforcePrimaryKeyUniqueness := by
  simp only [groupAllFilesToEachBucket, isBucket, Option.map_some, Option.some.injEq,
    exists_eq_left']
  rcases equalityDeleteDict partitionValue with _ | deletes
  · have noGroup : bucketGroups setOrder bucket.files [] = [] := by
      rw [List.eq_nil_iff_forall_not_mem]
      intro group groupMem
      obtain ⟨file, inGroup⟩ := List.exists_mem_of_ne_nil _ (mem_bucketGroups groupMem).2.1
      obtain ⟨-, delete, deleteMem, -⟩ := exists_mem_bucketGroup.mp ⟨group, groupMem, inGroup⟩
      cases deleteMem
    have spec := namesWhatMustGo_iff concat injective setOrder bucket []
      (List.Perm.refl bucket.files) enforcePrimaryKeyUniqueness
    rw [noGroup] at spec
    exact spec
  · have spec := namesWhatMustGo_iff concat injective setOrder bucket deletes
      (List.perm_insertionSort (fun left right => left.1 ≤ right.1) bucket.files)
      enforcePrimaryKeyUniqueness
    dsimp only
    rw [checkDataFilesSequenceNumber_eq]
    exact spec

/-- A set that is iterated over in the order of its list. -/
def SetOrder.inOrder {File : Type u} [DecidableEq File] : SetOrder File where
  iterate := List.dedup
  perm _ := List.Perm.refl _

/-- Files in two groups and a newer one without deletes, which repeats an identifier. -/
def threeFiles : Bucket ℕ ℕ where
  files := [(1, ⟨10, 2, [5, 7]⟩), (3, ⟨30, 2, [6, 8]⟩), (5, ⟨50, 1, [8]⟩)]
  distinct := by decide

/-- An equality delete file for each of the groups. -/
def groupDeletes : List (DataFileWithSequence ℕ ℕ) :=
  [(2, ⟨20, 1, [5]⟩), (4, ⟨40, 1, [6]⟩)]

/-- Both deleted rows are named, and the older one of the two rows that remain with a key. -/
theorem convert_threeFiles :
    ∃ convertInputFiles,
      groupAllFilesToEachBucket SetOrder.inOrder (fun _ : Unit => some threeFiles.files)
          (fun _ => some groupDeletes) () = some convertInputFiles ∧
        NamesWhatMustGo threeFiles.files groupDeletes true
          (convert (concatRecords ℕ ℕ) id SetOrder.inOrder true convertInputFiles) := by
  apply (convert_iff (concatRecords ℕ ℕ) Function.injective_id SetOrder.inOrder
    (fun _ : Unit => some threeFiles) (fun _ => some groupDeletes) true rfl).mpr
  refine ⟨rfl, Or.inl ⟨(5, ⟨50, 1, [8]⟩), by decide, by decide⟩, ?_⟩
  have lostFile : ∀ file ∈ threeFiles.files, IsLost threeFiles.files groupDeletes file →
      file = (1, ⟨10, 2, [5, 7]⟩) := by
    unfold IsLost
    decide
  intro file fileMem isLost pos identifier isRecord remains hasNewer
  obtain rfl := lostFile file fileMem isLost
  have isSeven : identifier = 7 := by
    rcases List.mem_pair.mp (List.mem_of_getElem? isRecord) with rfl | rfl
    · exact absurd remains (by decide)
    · rfl
  subst isSeven
  obtain ⟨other, otherMem, otherPos, isOther, -, less⟩ := hasNewer
  have sameFile : ∀ other ∈ threeFiles.files, 7 ∈ other.2.identifiers →
      other = (1, ⟨10, 2, [5, 7]⟩) := by decide
  obtain rfl := sameFile other otherMem (List.mem_of_getElem? isOther)
  have second : ∀ pos : ℕ, [5, 7][pos]? = some 7 → pos = 1 := by
    rintro (_ | _ | pos) isRecord
    · simp at isRecord
    · rfl
    · simp at isRecord
  rw [second pos isRecord, second otherPos isOther] at less
  exact lt_irrefl _ less

/-- Two files in different groups that have the same identifier. -/
def twoGroups : Bucket ℕ ℕ where
  files := [(1, ⟨10, 1, [7]⟩), (3, ⟨30, 1, [7]⟩)]
  distinct := by decide

/-- Delete files that name other identifiers. -/
def unrelatedDeletes : List (DataFileWithSequence ℕ ℕ) :=
  [(2, ⟨20, 1, [5]⟩), (4, ⟨40, 1, [6]⟩)]

/-- The older of two rows in different groups is not named. -/
theorem not_convert :
    ¬∃ convertInputFiles,
      groupAllFilesToEachBucket SetOrder.inOrder (fun _ : Unit => some twoGroups.files)
          (fun _ => some unrelatedDeletes) () = some convertInputFiles ∧
        NamesWhatMustGo twoGroups.files unrelatedDeletes true
          (convert (concatRecords ℕ ℕ) id SetOrder.inOrder true convertInputFiles) := by
  rintro ⟨convertInputFiles, isInput, positions, isOk, -, isPosition⟩
  have noPosition :
      convert (concatRecords ℕ ℕ) id SetOrder.inOrder true convertInputFiles = .ok [] := by
    cases isInput
    rfl
  rw [noPosition] at isOk
  cases isOk
  have mustGo : MustGo twoGroups.files unrelatedDeletes true (10, 0) :=
    ⟨_, List.mem_cons_self, rfl, 7, rfl, Or.inr ⟨rfl, _, List.mem_cons_of_mem _ List.mem_cons_self,
      0, rfl, by decide, by decide⟩⟩
  exact List.not_mem_nil ((isPosition (10, 0)).mpr mustGo)

end Result

end Deltacat.Compute.Converter
