import Deltacat.Storage.RevisionListing

/-!
# Detecting concurrent writes

A transaction that has written a revision looks for files that other transactions have
written under the same revision number. It looks at one page of a directory listing, which
has room for `DEFAULT_PAGE_SIZE` files and holds its own file too, so that of more files
under the number some are never looked at. The guard against too many conflicts counts
the others' files on the page and is out of reach as long as the own one is among them
(`detectsConflicts_iff`).
-/

namespace Deltacat.Storage

open Deltacat.Library Deltacat.Utils

namespace MetafileRevisionInfo

variable {files : List MetafileRevisionInfo} {current : MetafileRevisionInfo}

/-- The file of another transaction under the revision number of the current one. -/
def Conflicts (current mri : MetafileRevisionInfo) : Prop :=
  mri.revision = current.revision ∧ mri.txnId ≠ current.txnId

instance (current : MetafileRevisionInfo) : DecidablePred (Conflicts current) :=
  fun _ => inferInstanceAs (Decidable (_ ∧ _))

/-- The transaction of the file wins against the current one. -/
def Wins (current mri : MetafileRevisionInfo) : Prop :=
  Conflicts current mri ∧ mri.txnId.text > current.txnId.text

instance (current : MetafileRevisionInfo) : DecidablePred (Wins current) :=
  fun _ => inferInstanceAs (Decidable (_ ∧ _))

/-- The check stops at a file that wins, or when there are too many conflicts. -/
theorem findConflicts_eq {page conflictMris : List MetafileRevisionInfo}
    (descending : page.Pairwise fun left right => right.revision ≤ left.revision)
    (atMost : ∀ mri ∈ page, mri.revision ≤ current.revision)
    (few : conflictMris.length < maxConcurrentConflictCount) :
    findConflicts current page conflictMris =
      if (∃ mri ∈ page, Wins current mri) ∨
          maxConcurrentConflictCount ≤
            (conflictMris ++ page.filter (Conflicts current ·)).length then
        .error .concurrentModificationError
      else .ok (conflictMris ++ page.filter (Conflicts current ·)) := by
  induction page generalizing conflictMris with
  | nil => simpa [findConflicts] using few
  | cons head page ih =>
      rw [List.pairwise_cons] at descending
      have ofTail : ∀ mri ∈ page, mri.revision ≤ current.revision :=
        fun mri mriMem => atMost mri (List.mem_cons_of_mem head mriMem)
      by_cases below : head.revision < current.revision
      · -- Everything after an older revision is older still.
        have noConflict : ∀ mri ∈ head :: page, ¬Conflicts current mri := by
          rintro mri mriMem ⟨same, -⟩
          rcases List.mem_cons.mp mriMem with rfl | isLater
          · omega
          · have older := descending.1 mri isLater
            omega
        have noneFound : (head :: page).filter (Conflicts current ·) = [] := by
          rw [List.filter_eq_nil_iff]
          simpa using noConflict
        have noneWins : ¬∃ mri ∈ head :: page, Wins current mri := by
          rintro ⟨mri, mriMem, conflicts, _⟩
          exact noConflict mri mriMem conflicts
        rw [findConflicts, if_pos below, noneFound, List.append_nil,
          if_neg (not_or.mpr ⟨noneWins, not_le.mpr few⟩)]
      · rw [findConflicts, if_neg below]
        by_cases conflicts : Conflicts current head
        · have isFound : (head :: page).filter (Conflicts current ·) =
              head :: page.filter (Conflicts current ·) :=
            List.filter_cons_of_pos (decide_eq_true conflicts)
          rw [if_pos (show _ ∧ _ from conflicts), isFound]
          by_cases wins : head.txnId.text > current.txnId.text
          · have someWins : ∃ mri ∈ head :: page, Wins current mri :=
              ⟨head, List.mem_cons_self, conflicts, wins⟩
            rw [if_pos wins, if_pos (Or.inl someWins)]
          · have sameWins : (∃ mri ∈ head :: page, Wins current mri) ↔
                ∃ mri ∈ page, Wins current mri := by
              rw [List.exists_mem_cons_iff, or_iff_right fun headWins => wins headWins.2]
            simp only [if_neg wins, sameWins]
            rw [List.append_cons conflictMris head (page.filter _)]
            by_cases tooMany : (conflictMris ++ [head]).length ≥ maxConcurrentConflictCount
            · rw [if_pos tooMany, if_pos]
              rw [List.length_append]
              exact Or.inr (le_add_right tooMany)
            · rw [if_neg tooMany]
              exact ih descending.2 ofTail (not_le.mp tooMany)
        · have notFound : (head :: page).filter (Conflicts current ·) =
              page.filter (Conflicts current ·) :=
            List.filter_cons_of_neg (by simpa using conflicts)
          have sameWins : (∃ mri ∈ head :: page, Wins current mri) ↔
              ∃ mri ∈ page, Wins current mri := by
            rw [List.exists_mem_cons_iff, or_iff_right fun headWins => conflicts headWins.1]
          rw [if_neg (show ¬(_ ∧ _) from conflicts), notFound]
          simp only [sameWins]
          exact ih descending.2 ofTail few

/-- The files under the revision number of the current one, the greatest name first. -/
def contendersFirst (files : List MetafileRevisionInfo) (current : MetafileRevisionInfo) :
    List MetafileRevisionInfo :=
  (files.filter (·.revision = current.revision)).insertionSort Descending

/-- The contenders that fit on a page. -/
def contendersOnPage (files : List MetafileRevisionInfo) (current : MetafileRevisionInfo) :
    List MetafileRevisionInfo :=
  (contendersFirst files current).take defaultPageSize

theorem mem_contendersFirst {mri : MetafileRevisionInfo} :
    mri ∈ contendersFirst files current ↔ mri ∈ files ∧ mri.revision = current.revision := by
  simp [contendersFirst, List.mem_insertionSort]

/-- The listing begins with the contenders. -/
theorem newestFirst_eq_append (wellNamed : WellNamed files) (nodup : files.Nodup) :
    newestFirst files current.revision =
      contendersFirst files current ++
        (files.filter (·.revision < current.revision)).insertionSort Descending := by
  let older := (files.filter (·.revision < current.revision)).insertionSort Descending
  have mem_older : ∀ mri, mri ∈ older ↔ mri ∈ files ∧ mri.revision < current.revision := by
    intro mri
    simp [older, List.mem_insertionSort]
  have disjoint : List.Disjoint (contendersFirst files current) older := by
    intro mri isContender isOlder
    have same := (mem_contendersFirst.mp isContender).2
    have less := ((mem_older mri).mp isOlder).2
    omega
  have nodupListing : (newestFirst files current.revision).Nodup :=
    (List.perm_insertionSort Descending _).nodup_iff.mpr (nodup.filter _)
  have nodupSplit : (contendersFirst files current ++ older).Nodup :=
    List.Nodup.append ((List.perm_insertionSort Descending _).nodup_iff.mpr (nodup.filter _))
      ((List.perm_insertionSort Descending _).nodup_iff.mpr (nodup.filter _)) disjoint
  have sameFiles : ∀ mri, mri ∈ newestFirst files current.revision ↔
      mri ∈ contendersFirst files current ++ older := by
    intro mri
    rw [List.mem_append, mem_newestFirst, mem_contendersFirst, mem_older]
    constructor
    · rintro ⟨mriMem, atMost⟩
      rcases atMost.eq_or_lt with same | less
      · exact Or.inl ⟨mriMem, same⟩
      · exact Or.inr ⟨mriMem, less⟩
    · rintro (⟨mriMem, same⟩ | ⟨mriMem, less⟩)
      · exact ⟨mriMem, same.le⟩
      · exact ⟨mriMem, less.le⟩
  have ordered : (contendersFirst files current ++ older).Pairwise Descending := by
    rw [List.pairwise_append]
    refine ⟨List.pairwise_insertionSort Descending _, List.pairwise_insertionSort Descending _, ?_⟩
    intro contender isContender mri isOlder
    obtain ⟨contenderMem, same⟩ := mem_contendersFirst.mp isContender
    have less : mri.revision < contender.revision := same ▸ ((mem_older mri).mp isOlder).2
    exact (fileName_lt less (wellNamed.fits contender contenderMem)).le
  apply List.Perm.eq_of_pairwise _ (List.pairwise_insertionSort Descending _) ordered
  · exact (List.perm_ext_iff_of_nodup nodupListing nodupSplit).mpr sameFiles
  · intro left right leftMem rightMem forth back
    exact wellNamed.eq_of_fileName_eq (mem_newestFirst.mp leftMem).1
      (mem_newestFirst.mp ((sameFiles right).mpr rightMem)).1 (le_antisymm back forth)

/-- The conflicts on the page are among the contenders on it. -/
theorem filter_conflicts_sortedFilePaths (wellNamed : WellNamed files) (nodup : files.Nodup) :
    (sortedFilePaths files current.revision defaultPageSize).filter (Conflicts current ·) =
      (contendersOnPage files current).filter (Conflicts current ·) := by
  have page : sortedFilePaths files current.revision defaultPageSize =
      (newestFirst files current.revision).take defaultPageSize := rfl
  rw [page, newestFirst_eq_append wellNamed nodup, List.take_append, List.filter_append]
  refine List.append_right_eq_self.mpr (List.filter_eq_nil_iff.mpr ?_)
  intro mri mriMem conflicts
  have isOlder := List.mem_of_mem_take mriMem
  rw [List.mem_insertionSort, List.mem_filter, decide_eq_true_iff] at isOlder
  have same := (of_decide_eq_true conflicts).1
  omega

/-- Whether a conflict is fatal: the other transaction wins, or it has a success log. -/
def IsFatal (endTime : SuccessLog) (current mri : MetafileRevisionInfo) : Prop :=
  Conflicts current mri ∧
    (mri.txnId.text > current.txnId.text ∨ (endTime mri.txnId).isSome)

/-- A fatal conflict as the check sees it: an end time of zero counts as none. -/
def SeemsFatal (endTime : SuccessLog) (current mri : MetafileRevisionInfo) : Prop :=
  Conflicts current mri ∧
    (mri.txnId.text > current.txnId.text ∨ (endTime mri.txnId).any (· ≠ 0))

/-- What makes the check raise: a conflict on the page, or that nothing else is on it. -/
def Raises (files : List MetafileRevisionInfo) (endTime : SuccessLog)
    (current : MetafileRevisionInfo) : Prop :=
  (∃ mri ∈ contendersOnPage files current, SeemsFatal endTime current mri) ∨
    (contendersOnPage files current).length = defaultPageSize ∧
      ∀ mri ∈ contendersOnPage files current, Conflicts current mri

theorem checkForConcurrentTxnConflict_eq_ok_iff (wellNamed : WellNamed files)
    (nodup : files.Nodup) (currentMem : current ∈ files) (endTime : SuccessLog) :
    checkForConcurrentTxnConflict files endTime current = .ok () ↔
      ¬Raises files endTime current := by
  let page := sortedFilePaths files current.revision defaultPageSize
  let conflicts := (contendersOnPage files current).filter (Conflicts current ·)
  have onPage : page.filter (Conflicts current ·) = conflicts :=
    filter_conflicts_sortedFilePaths wellNamed nodup
  have mem_conflicts : ∀ mri, mri ∈ conflicts ↔
      mri ∈ contendersOnPage files current ∧ Conflicts current mri := by
    intro mri
    rw [List.mem_filter, decide_eq_true_iff]
  have someWins : (∃ mri ∈ page, Wins current mri) ↔
      ∃ mri ∈ conflicts, mri.txnId.text > current.txnId.text := by
    simp only [← onPage, List.mem_filter, decide_eq_true_iff, Wins, and_assoc]
  have tooMany : maxConcurrentConflictCount ≤ conflicts.length ↔
      (contendersOnPage files current).length = defaultPageSize ∧
        ∀ mri ∈ contendersOnPage files current, Conflicts current mri := by
    have fits : (contendersOnPage files current).length ≤ defaultPageSize := List.length_take_le _ _
    have fewer : conflicts.length ≤ (contendersOnPage files current).length :=
      List.length_filter_le _ _
    constructor
    · intro many
      have same : conflicts.length = (contendersOnPage files current).length :=
        le_antisymm fewer (fits.trans many)
      rw [List.length_filter_eq_length_iff] at same
      exact ⟨le_antisymm fits (many.trans fewer),
        fun mri mriMem => of_decide_eq_true (same mri mriMem)⟩
    · rintro ⟨isFull, allConflict⟩
      have same : conflicts.length = (contendersOnPage files current).length := by
        rw [List.length_filter_eq_length_iff]
        exact fun mri mriMem => decide_eq_true (allConflict mri mriMem)
      exact (same.trans isFull).ge
  have found : findConflicts current page [] = _ := findConflicts_eq
    ((descending_revision wellNamed current.revision).sublist (List.take_sublist _ _))
    (fun mri mriMem => (mem_sortedFilePaths mriMem).2) (by decide)
  simp only [List.nil_append, onPage, someWins, tooMany] at found
  have isChecked : checkForConcurrentTxnConflict files endTime current =
      findConflicts current page [] >>= fun conflictMris =>
        if conflictMris.any fun mri => (endTime mri.txnId).any (· ≠ 0) then
          .error .concurrentModificationError
        else .ok () := by
    have someFile : page ≠ [] := fun noFile =>
      sortedFilePaths_nil (by decide) noFile current currentMem le_rfl
    rw [checkForConcurrentTxnConflict]
    split
    · exact absurd ‹_› someFile
    · rfl
  have raises_iff : Raises files endTime current ↔
      ((∃ mri ∈ conflicts, mri.txnId.text > current.txnId.text) ∨
        (contendersOnPage files current).length = defaultPageSize ∧
          ∀ mri ∈ contendersOnPage files current, Conflicts current mri) ∨
        conflicts.any fun mri => (endTime mri.txnId).any (· ≠ 0) := by
    have seemsFatal : (∃ mri ∈ contendersOnPage files current, SeemsFatal endTime current mri) ↔
        (∃ mri ∈ conflicts, mri.txnId.text > current.txnId.text) ∨
          conflicts.any fun mri => (endTime mri.txnId).any (· ≠ 0) := by
      rw [List.any_eq_true, ← exists_or]
      apply exists_congr
      intro mri
      rw [← and_or_left, mem_conflicts, and_assoc]
      rfl
    rw [Raises, seemsFatal, or_right_comm]
  rw [isChecked, found, raises_iff]
  split_ifs with raises
  · refine iff_of_false (by rintro ⟨⟩) ?_
    exact not_not.mpr (Or.inl raises)
  · simp only [bind, Except.bind]
    split_ifs with ended
    · refine iff_of_false (by rintro ⟨⟩) ?_
      exact not_not.mpr (Or.inr ended)
    · exact iff_of_true rfl (not_or.mpr ⟨raises, ended⟩)

end MetafileRevisionInfo

namespace RevisionDirectory

open MetafileRevisionInfo

/-- `check_for_concurrent_txn_conflict` on the directory tree. -/
def checkForConcurrentTxnConflict (directory : RevisionDirectory) (endTime : SuccessLog)
    (current : MetafileRevisionInfo) : Except Error Unit := do
  match ← diskPage directory.filesystem current.revision defaultPageSize with
  | [] => .error .objectNotFoundError
  | sortedMetafilePaths =>
      let conflictMris ← findConflicts current sortedMetafilePaths []
      if conflictMris.any fun mri => (endTime mri.txnId).any (· ≠ 0) then
        .error .concurrentModificationError
      else .ok ()

variable {directory : RevisionDirectory} {current : MetafileRevisionInfo}

theorem checkForConcurrentTxnConflict_eq (currentMem : current ∈ directory.files)
    (endTime : SuccessLog) :
    directory.checkForConcurrentTxnConflict endTime current =
      MetafileRevisionInfo.checkForConcurrentTxnConflict directory.files endTime current := by
  rw [checkForConcurrentTxnConflict,
    directory.diskPage_eq (directory.partitionable currentMem) (by decide)]
  rfl

/--
The check raises if there is a fatal conflict, and it passes if there is no file of
another transaction under the revision number at all.
-/
def DetectsConflicts (directory : RevisionDirectory) (endTime : SuccessLog)
    (current : MetafileRevisionInfo) : Prop :=
  ((∃ mri ∈ directory.files, IsFatal endTime current mri) →
      directory.checkForConcurrentTxnConflict endTime current ≠ .ok ()) ∧
    ((∀ mri ∈ directory.files, ¬Conflicts current mri) →
      directory.checkForConcurrentTxnConflict endTime current = .ok ())

/--
The check detects fatal conflicts if and only if there is none, or one is on the page and
not of end time zero, or the page is filled with the files of other transactions.
-/
theorem detectsConflicts_iff (currentMem : current ∈ directory.files) (endTime : SuccessLog) :
    directory.DetectsConflicts endTime current ↔
      (∀ mri ∈ directory.files, ¬IsFatal endTime current mri) ∨
        Raises directory.files endTime current := by
  have checked : directory.checkForConcurrentTxnConflict endTime current = .ok () ↔ _ :=
    (checkForConcurrentTxnConflict_eq currentMem endTime) ▸
      checkForConcurrentTxnConflict_eq_ok_iff directory.wellNamed directory.nodup_files currentMem
        endTime
  have passes : (∀ mri ∈ directory.files, ¬Conflicts current mri) →
      ¬Raises directory.files endTime current := by
    intro noConflict
    have notContender : ∀ mri ∈ contendersOnPage directory.files current,
        ¬Conflicts current mri := fun mri mriMem =>
      noConflict mri (mem_contendersFirst.mp (List.mem_of_mem_take mriMem)).1
    rintro (⟨mri, mriMem, conflicts, -⟩ | ⟨isFull, allConflict⟩)
    · exact notContender mri mriMem conflicts
    · have someFile : contendersOnPage directory.files current ≠ [] := by
        rintro noFile
        rw [noFile] at isFull
        exact absurd isFull (by decide)
      obtain ⟨mri, mriMem⟩ := List.exists_mem_of_ne_nil _ someFile
      exact notContender mri mriMem (allConflict mri mriMem)
  have raises_iff : directory.checkForConcurrentTxnConflict endTime current ≠ .ok () ↔
      Raises directory.files endTime current := by
    rw [ne_eq, checked, not_not]
  rw [DetectsConflicts, raises_iff, checked, and_iff_left passes]
  constructor
  · intro detects
    by_cases someFatal : ∃ mri ∈ directory.files, IsFatal endTime current mri
    · exact Or.inr (detects someFatal)
    · exact Or.inl fun mri mriMem isFatal => someFatal ⟨mri, mriMem, isFatal⟩
  · rintro (noneFatal | raises) ⟨mri, mriMem, isFatal⟩
    · exact absurd isFatal (noneFatal mri mriMem)
    · exact raises

/-- A directory to which some files were written. -/
def writeAll : (mris : List MetafileRevisionInfo) →
    (∀ mri ∈ mris, Partitionable mri.revision ∧ mri.txnOpType.isWriteOperation) →
      RevisionDirectory
  | [], _ => empty
  | mri :: mris, valid =>
      (writeAll mris
        fun other otherMem => valid other (List.mem_cons_of_mem mri otherMem)).write mri
        (valid mri List.mem_cons_self).1 (valid mri List.mem_cons_self).2

theorem mem_writeAll {mris : List MetafileRevisionInfo}
    (valid : ∀ mri ∈ mris, Partitionable mri.revision ∧ mri.txnOpType.isWriteOperation)
    {mri : MetafileRevisionInfo} : mri ∈ (writeAll mris valid).files ↔ mri ∈ mris := by
  induction mris with
  | nil => exact Iff.rfl
  | cons head mris ih =>
      rw [List.mem_cons,
        ← ih fun other otherMem => valid other (List.mem_cons_of_mem head otherMem)]
      exact List.mem_insert_iff

/-- Two of the writers wrote the first revision, and the older one has ended. -/
def contendedTwice : RevisionDirectory :=
  writeAll [⟨1, .create, creator⟩, ⟨1, .create, winner⟩] fun mri mriMem => by
    simp only [List.mem_cons, List.not_mem_nil, or_false] at mriMem
    rcases mriMem with rfl | rfl
    · exact ⟨partitionable_of_le_maxRevisionNumber (by decide) (by decide), rfl⟩
    · exact ⟨partitionable_of_le_maxRevisionNumber (by decide) (by decide), rfl⟩

theorem detectsConflicts_contendedTwice :
    contendedTwice.DetectsConflicts (fun txnId => if txnId = creator then some 11 else none)
      ⟨1, .create, winner⟩ := by
  refine (detectsConflicts_iff ((mem_writeAll _).mpr (by decide)) _).mpr
    (Or.inr (Or.inl ⟨⟨1, .create, creator⟩, ?_, ?_, ?_⟩))
  · decide +kernel
  · decide
  · decide

/-- The transaction that updates the first revision of `crowded`. -/
def updater : TransactionId := .numbered 9 9

/-- A transaction that started before it and has not ended. -/
def rival (index : ℕ) : TransactionId := .numbered 0 index

/-- The only transaction that has ended. -/
def ended : TransactionId := .numbered 1 0

/-- One file more than fits on a page, under one revision number. -/
def crowdedFiles : List MetafileRevisionInfo :=
  ⟨1, .create, ended⟩ :: ⟨1, .update, updater⟩ ::
    (List.range 999).map fun index => ⟨1, .update, rival index⟩

theorem mem_crowdedFiles {mri : MetafileRevisionInfo} :
    mri ∈ crowdedFiles ↔ mri = ⟨1, .create, ended⟩ ∨ mri = ⟨1, .update, updater⟩ ∨
      ∃ index < 999, ⟨1, .update, rival index⟩ = mri := by
  simp [crowdedFiles]

theorem nodup_crowdedFiles : crowdedFiles.Nodup := by
  have injective : Function.Injective fun index =>
      (⟨1, .update, rival index⟩ : MetafileRevisionInfo) := by
    intro left right same
    have sameRepr : left.repr = right.repr :=
      congrArg (fun mri : MetafileRevisionInfo => mri.txnId.uuid) same
    have sameDigits := congrArg String.toList sameRepr
    rw [Nat.toList_repr, Nat.toList_repr] at sameDigits
    rw [← @Nat.ofDigitChars_ten_toDigits left, sameDigits, Nat.ofDigitChars_ten_toDigits]
  have rivals : ((List.range 999).map fun index =>
      (⟨1, .update, rival index⟩ : MetafileRevisionInfo)).Nodup := List.nodup_range.map injective
  rw [crowdedFiles, List.nodup_cons, List.nodup_cons]
  refine ⟨?_, ?_, rivals⟩
  · simp
  · simp only [List.mem_map, not_exists, not_and]
    intro index _ same
    have sameStart : (rival index).startTime = updater.startTime :=
      congrArg (fun mri : MetafileRevisionInfo => mri.txnId.startTime) same
    cases sameStart

/-- The directory with these files. -/
def crowded : RevisionDirectory :=
  writeAll crowdedFiles fun mri mriMem => by
    have partitionable : Partitionable 1 :=
      partitionable_of_le_maxRevisionNumber (by decide) (by decide)
    rcases mem_crowdedFiles.mp mriMem with rfl | rfl | ⟨index, -, rfl⟩
    · exact ⟨partitionable, rfl⟩
    · exact ⟨partitionable, rfl⟩
    · exact ⟨partitionable, rfl⟩

/-- Creations have lesser names than updates. -/
theorem fileName_create_lt_update (revision : ℕ) (left right : TransactionId) :
    (⟨revision, .create, left⟩ : MetafileRevisionInfo).fileName <
      (⟨revision, .update, right⟩ : MetafileRevisionInfo).fileName := by
  rw [String.lt_iff_toList_lt]
  simp only [fileName, String.toList_append, String.toList_ofList, List.append_assoc]
  apply List.append_left_lt
  apply List.append_left_lt
  exact List.cons_lt_cons_iff.mpr (Or.inl (by decide))

/-- The file with the least name is the only one that is not on the page. -/
theorem mem_contendersOnPage_crowded {mri : MetafileRevisionInfo} :
    mri ∈ contendersOnPage crowded.files ⟨1, .update, updater⟩ ↔
      mri ∈ crowdedFiles ∧ mri ≠ ⟨1, .create, ended⟩ := by
  let contenders := contendersFirst crowded.files ⟨1, .update, updater⟩
  have mem_contenders : ∀ other, other ∈ contenders ↔ other ∈ crowdedFiles := by
    intro other
    rw [mem_contendersFirst, crowded, mem_writeAll, and_iff_left_iff_imp]
    intro otherMem
    rcases mem_crowdedFiles.mp otherMem with rfl | rfl | ⟨index, -, rfl⟩ <;> rfl
  have nodup : contenders.Nodup :=
    (List.perm_insertionSort Descending _).nodup_iff.mpr (crowded.nodup_files.filter _)
  have length : contenders.length = defaultPageSize + 1 := by
    have perm := (List.perm_ext_iff_of_nodup nodup nodup_crowdedFiles).mpr mem_contenders
    rw [perm.length_eq]
    simp [crowdedFiles, defaultPageSize]
  obtain ⟨last, isLast⟩ : ∃ last, contenders.drop defaultPageSize = [last] := by
    apply List.length_eq_one_iff.mp
    rw [List.length_drop, length]
    exact Nat.add_sub_cancel_left _ 1
  have split : contenders = contenders.take defaultPageSize ++ [last] := by
    rw [← isLast, List.take_append_drop]
  have ordered : contenders.Pairwise Descending := List.pairwise_insertionSort Descending _
  rw [split] at ordered nodup
  have lastIsLeast : last = ⟨1, .create, ended⟩ := by
    by_contra notLeast
    have leastMem : ⟨1, .create, ended⟩ ∈ contenders :=
      (mem_contenders _).mpr (mem_crowdedFiles.mpr (Or.inl rfl))
    have lastMem : last ∈ crowdedFiles := by
      rw [← mem_contenders, split]
      exact List.mem_append_right _ (List.mem_singleton_self last)
    rw [split, List.mem_append, List.mem_singleton] at leastMem
    have isDescending := (List.pairwise_append.mp ordered).2.2 _
      (leastMem.resolve_right (Ne.symm notLeast)) last (List.mem_singleton_self last)
    refine absurd isDescending (not_le_of_gt ?_)
    rcases mem_crowdedFiles.mp lastMem with rfl | rfl | ⟨index, -, rfl⟩
    · exact absurd rfl notLeast
    · exact fileName_create_lt_update 1 ended updater
    · exact fileName_create_lt_update 1 ended (rival index)
  have notAgain := List.disjoint_of_nodup_append nodup
  rw [← mem_contenders, split, List.mem_append, List.mem_singleton, ← lastIsLeast]
  constructor
  · intro onPage
    refine ⟨Or.inl onPage, ?_⟩
    rintro rfl
    exact notAgain onPage (List.mem_singleton_self mri)
  · rintro ⟨onPage | isLeast, differs⟩
    · exact onPage
    · exact absurd isLeast differs

/-- A conflict with a transaction that has ended is not detected in a crowded directory. -/
theorem not_detectsConflicts :
    ¬crowded.DetectsConflicts (fun txnId => if txnId = ended then some 5 else none)
      ⟨1, .update, updater⟩ := by
  have mem_files : ∀ mri, mri ∈ crowded.files ↔ mri ∈ crowdedFiles := fun mri => mem_writeAll _
  have currentMem : ⟨1, .update, updater⟩ ∈ crowded.files :=
    (mem_files _).mpr (mem_crowdedFiles.mpr (Or.inr (Or.inl rfl)))
  have endedMem : ⟨1, .create, ended⟩ ∈ crowded.files :=
    (mem_files _).mpr (mem_crowdedFiles.mpr (Or.inl rfl))
  rintro ⟨detects, -⟩
  refine detects ⟨_, endedMem, by decide, Or.inr (by decide)⟩ ?_
  rw [checkForConcurrentTxnConflict_eq currentMem,
    checkForConcurrentTxnConflict_eq_ok_iff crowded.wellNamed crowded.nodup_files currentMem]
  rintro (⟨mri, mriMem, conflicts, seemsFatal⟩ | ⟨-, allConflict⟩)
  · obtain ⟨mriMem, notEnded⟩ := mem_contendersOnPage_crowded.mp mriMem
    rcases mem_crowdedFiles.mp mriMem with rfl | rfl | ⟨index, -, rfl⟩
    · exact notEnded rfl
    · exact conflicts.2 rfl
    · have notGreater : (rival index).text < updater.text := by
        rw [String.lt_iff_toList_lt]
        simp only [TransactionId.text, String.toList_append, rival, TransactionId.numbered,
          List.append_assoc]
        exact List.cons_lt_cons_iff.mpr (Or.inl (by decide))
      have notEnded : rival index ≠ ended := by
        intro same
        have sameStart : (rival index).startTime = ended.startTime :=
          congrArg TransactionId.startTime same
        cases sameStart
      rcases seemsFatal with greater | hasEnded
      · exact lt_asymm notGreater greater
      · dsimp only at hasEnded
        rw [if_neg notEnded] at hasEnded
        cases hasEnded
  · have onPage : ⟨1, .update, updater⟩ ∈
        contendersOnPage crowded.files ⟨1, .update, updater⟩ :=
      mem_contendersOnPage_crowded.mpr ⟨mem_crowdedFiles.mpr (Or.inr (Or.inl rfl)), by decide⟩
    exact (allConflict _ onPage).2 rfl

end RevisionDirectory

end Deltacat.Storage
