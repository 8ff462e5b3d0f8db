import Deltacat.Library.Sorting
import Deltacat.Storage.Revision
import Mathlib.Tactic

/-!
# What a scan for the latest revision finds

`list_revisions` looks at one file of each revision number: the one whose name
is the greatest among the files of that number. If that file is not visible to
the reader, the scan resumes below its revision number and the other files of
the same number are never looked at. The scan therefore finds the greatest
revision number whose *first* file is visible (`scan_spec`), and this is the
greatest visible revision exactly when no file hides it from the scan
(`latestRevision_correct_iff`). Two transactions that write the same revision
number at the same time do leave such files behind: the number of the committed
one may be hidden by the other one's file, whose operation name or transaction
identifier is greater.
-/

namespace Deltacat.Storage

open Deltacat.Library Deltacat.Utils

namespace MetafileRevisionInfo

/-- The file that a scan meets first among the files of its revision number. -/
structure IsHead (files : List MetafileRevisionInfo) (mri : MetafileRevisionInfo) : Prop where
  mem : mri ∈ files
  greatest : ∀ other ∈ files, other.revision = mri.revision → other.fileName ≤ mri.fileName

/--
Files as write operations leave them: numbered from one on, with numbers that
fit into the padded numeral.
-/
structure WellNamed (files : List MetafileRevisionInfo) : Prop where
  positive : ∀ mri ∈ files, 0 < mri.revision
  fits : ∀ mri ∈ files, mri.revision < 10 ^ 20
  isWrite : ∀ mri ∈ files, mri.txnOpType.isWriteOperation

theorem WellNamed.eq_of_fileName_eq {files : List MetafileRevisionInfo}
    (wellNamed : WellNamed files) {left right : MetafileRevisionInfo} (leftMem : left ∈ files)
    (rightMem : right ∈ files) (same : left.fileName = right.fileName) : left = right := by
  have parsed := congrArg parse same
  rw [parse_fileName left (wellNamed.isWrite left leftMem),
    parse_fileName right (wellNamed.isWrite right rightMem), Option.some.injEq] at parsed
  exact parsed

/-- Some file heads the files of each revision number. -/
theorem exists_isHead {files : List MetafileRevisionInfo} {mri : MetafileRevisionInfo}
    (mriMem : mri ∈ files) : ∃ head, IsHead files head ∧ head.revision = mri.revision := by
  have nonempty : (files.filter (·.revision = mri.revision)).toFinset.Nonempty :=
    ⟨mri, by simp [mriMem]⟩
  rcases Finset.exists_max_image _ fileName nonempty with ⟨head, headMem, isGreatest⟩
  simp only [List.mem_toFinset, List.mem_filter, decide_eq_true_eq] at headMem isGreatest
  refine ⟨head, ⟨headMem.1, ?_⟩, headMem.2⟩
  intro other otherMem same
  exact isGreatest other ⟨otherMem, same.trans headMem.2⟩

/-- What a scan at or below a bound returns: the greatest revision with a visible head. -/
def ScanResult (files : List MetafileRevisionInfo) (visible : MetafileRevisionInfo → Prop)
    (bound : ℕ) : Option MetafileRevisionInfo → Prop
  | some mri =>
      IsHead files mri ∧ visible mri ∧ mri.revision ≤ bound ∧
        ∀ other, IsHead files other → visible other → other.revision ≤ bound →
          other.revision ≤ mri.revision
  | none => ∀ other, IsHead files other → other.revision ≤ bound → ¬visible other

section Scan

variable {files : List MetafileRevisionInfo}

theorem mem_sortedFilePaths {partitionValue limit : ℕ} {mri : MetafileRevisionInfo}
    (mriMem : mri ∈ sortedFilePaths files partitionValue limit) :
    mri ∈ files ∧ mri.revision ≤ partitionValue := by
  have inSorted := List.mem_of_mem_take mriMem
  rw [List.mem_insertionSort] at inSorted
  simpa using inSorted

/-- The first path of a page is the greatest name at or below the page's revision number. -/
theorem sortedFilePaths_cons {partitionValue limit : ℕ} {mri : MetafileRevisionInfo}
    {rest : List MetafileRevisionInfo}
    (page : sortedFilePaths files partitionValue limit = mri :: rest) :
    mri ∈ files ∧ mri.revision ≤ partitionValue ∧
      ∀ other ∈ files, other.revision ≤ partitionValue → other.fileName ≤ mri.fileName := by
  have mriMem : mri ∈ files ∧ mri.revision ≤ partitionValue :=
    mem_sortedFilePaths (page ▸ List.mem_cons_self)
  refine ⟨mriMem.1, mriMem.2, ?_⟩
  intro other otherMem atMost
  have sorted := List.pairwise_insertionSort Descending
    (files.filter (·.revision ≤ partitionValue))
  have otherSorted : other ∈ (files.filter (·.revision ≤ partitionValue)).insertionSort
      Descending := by
    rw [List.mem_insertionSort]
    simp [otherMem, atMost]
  cases whole : (files.filter (·.revision ≤ partitionValue)).insertionSort Descending with
  | nil => simp [whole] at otherSorted
  | cons first later =>
      rw [sortedFilePaths, whole] at page
      cases limit with
      | zero => simp at page
      | succ limit =>
          simp only [List.take_succ_cons, List.cons.injEq] at page
          rw [whole, page.1] at sorted otherSorted
          rcases List.mem_cons.mp otherSorted with rfl | isLater
          · exact le_rfl
          · exact List.rel_of_pairwise_cons sorted isLater

/-- An empty page means that there is no file at or below the page's revision number. -/
theorem sortedFilePaths_nil {partitionValue limit : ℕ} (positive : 0 < limit)
    (page : sortedFilePaths files partitionValue limit = []) :
    ∀ other ∈ files, ¬other.revision ≤ partitionValue := by
  intro other otherMem atMost
  have otherSorted : other ∈ (files.filter (·.revision ≤ partitionValue)).insertionSort
      Descending := by
    rw [List.mem_insertionSort]
    simp [otherMem, atMost]
  rw [sortedFilePaths, List.take_eq_nil_iff] at page
  rcases page with isZero | empty
  · exact absurd isZero positive.ne'
  · simp [empty] at otherSorted

/-- The first path of a page has the greatest revision number of the page and heads it. -/
theorem isHead_of_sortedFilePaths_cons (wellNamed : WellNamed files) {partitionValue limit : ℕ}
    {mri : MetafileRevisionInfo} {rest : List MetafileRevisionInfo}
    (page : sortedFilePaths files partitionValue limit = mri :: rest) :
    IsHead files mri ∧ mri.revision ≤ partitionValue ∧
      ∀ other ∈ files, other.revision ≤ partitionValue → other.revision ≤ mri.revision := by
  rcases sortedFilePaths_cons page with ⟨mriMem, atMost, greatest⟩
  refine ⟨⟨mriMem, ?_⟩, atMost, ?_⟩
  · intro other otherMem same
    exact greatest other otherMem (same ▸ atMost)
  · intro other otherMem otherAtMost
    by_contra greater
    have less := fileName_lt (Nat.lt_of_not_le greater) (wellNamed.fits other otherMem)
    exact absurd (greatest other otherMem otherAtMost) (not_le_of_gt less)

/-- The number of files that a scan at or below a bound may still look at. -/
def remaining (files : List MetafileRevisionInfo) (bound : ℕ) : ℕ :=
  (files.filter (·.revision ≤ bound)).length

theorem remaining_lt {mri : MetafileRevisionInfo} (mriMem : mri ∈ files) {bound lower : ℕ}
    (atMost : mri.revision ≤ bound) (below : lower < mri.revision) :
    remaining files lower < remaining files bound := by
  unfold remaining
  have split : files.filter (·.revision ≤ lower) =
      (files.filter (·.revision ≤ bound)).filter (·.revision ≤ lower) := by
    rw [List.filter_filter]
    congr 1
    funext other
    rw [← Bool.decide_and, decide_eq_decide]
    omega
  rw [split]
  exact List.length_filter_lt_length_iff_exists.mpr ⟨mri, by simp [mriMem, atMost], by simpa⟩

/--
The scan with a limit of one. The induction is on the fuel; each round discards
at least the file it looked at.
-/
theorem scan_spec (wellNamed : WellNamed files) {pageSize : ℕ} (pagePositive : 0 < pageSize)
    {nextPageProvider : ℕ → Except Error (List MetafileRevisionInfo)}
    {committed : MetafileRevisionInfo → Except Error Bool}
    {visible : MetafileRevisionInfo → Prop} [DecidablePred visible]
    (decides : ∀ mri, committed mri = .ok (decide (visible mri))) (fuel bound : ℕ)
    (provides : ∀ value, 0 < value → value ≤ bound →
      nextPageProvider value = .ok (sortedFilePaths files value pageSize))
    (positive : 0 < bound) (enough : remaining files bound < fuel) :
    ∃ result, ScanResult files visible bound result ∧
      listRevisionsFrom nextPageProvider committed fuel bound 1 [] = .ok result.toList := by
  induction fuel generalizing bound with
  | zero => omega
  | succ fuel ih =>
      rw [listRevisionsFrom, provides bound positive le_rfl]
      cases page : sortedFilePaths files bound pageSize with
      | nil =>
          refine ⟨none, ?_, rfl⟩
          intro other isHead atMost
          exact absurd atMost (sortedFilePaths_nil pagePositive page other isHead.mem)
      | cons mri rest =>
          rcases isHead_of_sortedFilePaths_cons wellNamed page with ⟨isHead, atMost, greatest⟩
          by_cases isVisible : visible mri
          · refine ⟨some mri, ⟨isHead, isVisible, atMost, ?_⟩, ?_⟩
            · exact fun other otherHead _ => greatest other otherHead.mem
            · simp [decides, isVisible, bind, Except.bind]
          · -- Nothing else of this revision number is looked at.
            have notVisible : ∀ other, IsHead files other → visible other →
                other.revision ≤ bound → other.revision < mri.revision := by
              intro other otherHead otherVisible otherAtMost
              refine lt_of_le_of_ne (greatest other otherHead.mem otherAtMost) ?_
              intro same
              have sameName := le_antisymm (isHead.greatest other otherHead.mem same)
                (otherHead.greatest mri isHead.mem same.symm)
              have sameFile := wellNamed.eq_of_fileName_eq otherHead.mem isHead.mem sameName
              exact isVisible (sameFile ▸ otherVisible)
            by_cases isFirst : mri.revision ≤ 1
            · refine ⟨none, ?_, ?_⟩
              · intro other otherHead otherAtMost otherVisible
                have below := notVisible other otherHead otherVisible otherAtMost
                have otherPositive := wellNamed.positive other otherHead.mem
                omega
              · simp [decides, isVisible, isFirst, bind, Except.bind]
            · have shrinks : remaining files (mri.revision - 1) < fuel := by
                have fewer := remaining_lt isHead.mem atMost
                  (show mri.revision - 1 < mri.revision by omega)
                omega
              rcases ih (mri.revision - 1) (fun value valuePositive valueAtMost =>
                provides value valuePositive (by omega)) (by omega) shrinks with
                ⟨result, isResult, scanned⟩
              refine ⟨result, ?_, ?_⟩
              · cases result with
                | none =>
                    intro other otherHead otherAtMost otherVisible
                    have below := notVisible other otherHead otherVisible otherAtMost
                    exact isResult other otherHead (by omega) otherVisible
                | some found =>
                    rcases isResult with ⟨foundHead, foundVisible, foundAtMost, foundGreatest⟩
                    refine ⟨foundHead, foundVisible, by omega, ?_⟩
                    intro other otherHead otherVisible otherAtMost
                    have below := notVisible other otherHead otherVisible otherAtMost
                    exact foundGreatest other otherHead otherVisible (by omega)
              · simpa [decides, isVisible, isFirst, bind, Except.bind] using scanned

end Scan

section Conflicts

variable {files : List MetafileRevisionInfo} {current : MetafileRevisionInfo}

theorem findConflicts_ok {page conflictMris found : List MetafileRevisionInfo}
    (descending : page.Pairwise fun left right => right.revision ≤ left.revision)
    (passed : findConflicts current page conflictMris = .ok found) :
    (∀ mri ∈ conflictMris, mri ∈ found) ∧
      ∀ mri ∈ page, mri.revision = current.revision → mri.txnId ≠ current.txnId →
        mri ∈ found ∧ mri.txnId.text < current.txnId.text := by
  induction page generalizing conflictMris with
  | nil =>
      simp only [findConflicts, Except.ok.injEq] at passed
      subst passed
      simp
  | cons head page ih =>
      rw [List.pairwise_cons] at descending
      simp only [findConflicts] at passed
      split at passed
      case isTrue below =>
        -- Everything after an older revision is older still.
        simp only [Except.ok.injEq] at passed
        subst passed
        refine ⟨fun mri mriMem => mriMem, ?_⟩
        intro mri mriMem same
        rcases List.mem_cons.mp mriMem with rfl | isLater
        · omega
        · have older := descending.1 mri isLater
          omega
      case isFalse =>
        split at passed
        case isTrue conflicts =>
          split at passed
          · cases passed
          · split at passed
            · cases passed
            · rename_i notGreater _
              rcases ih descending.2 passed with ⟨kept, later⟩
              refine ⟨fun mri mriMem => kept mri (by simp [mriMem]), ?_⟩
              intro mri mriMem same other
              rcases List.mem_cons.mp mriMem with rfl | isLater
              · refine ⟨kept mri (by simp), lt_of_le_of_ne (not_lt.mp notGreater) ?_⟩
                exact fun sameText => other (TransactionId.text_injective sameText)
              · exact later mri isLater same other
        case isFalse harmless =>
          rcases ih descending.2 passed with ⟨kept, later⟩
          refine ⟨kept, ?_⟩
          intro mri mriMem same other
          rcases List.mem_cons.mp mriMem with rfl | isLater
          · exact absurd ⟨same, other⟩ harmless
          · exact later mri isLater same other

/-- The number of files under the revision number of a file. -/
def contenders (files : List MetafileRevisionInfo) (current : MetafileRevisionInfo) : ℕ :=
  (files.filter (·.revision = current.revision)).length

theorem descending_revision (wellNamed : WellNamed files) (partitionValue : ℕ) :
    ((files.filter (·.revision ≤ partitionValue)).insertionSort Descending).Pairwise
      fun left right => right.revision ≤ left.revision := by
  refine (List.pairwise_insertionSort Descending _).imp_of_mem ?_
  intro left right leftMem rightMem isDescending
  rw [List.mem_insertionSort] at leftMem rightMem
  by_contra greater
  have less := fileName_lt (Nat.lt_of_not_le greater)
    (wellNamed.fits right (List.mem_of_mem_filter rightMem))
  exact absurd isDescending (not_le_of_gt less)

/-- The files under the current revision number fill the first places of the scan. -/
theorem mem_page_of_contenders (wellNamed : WellNamed files)
    (few : contenders files current ≤ defaultPageSize) {mri : MetafileRevisionInfo}
    (mriMem : mri ∈ files) (same : mri.revision = current.revision) :
    mri ∈ sortedFilePaths files current.revision defaultPageSize := by
  have sorted := List.perm_insertionSort Descending
    (files.filter (·.revision ≤ current.revision))
  apply mem_take_of_descending (descending_revision wellNamed current.revision) _ _ _ same
  · intro other otherMem
    rw [List.mem_insertionSort] at otherMem
    simpa using (List.mem_filter.mp otherMem).2
  · rw [(sorted.filter _).length_eq, List.filter_filter]
    refine le_trans (le_of_eq ?_) few
    unfold contenders
    congr 1
    apply List.filter_congr
    intro other _
    rw [← Bool.decide_and, decide_eq_decide]
    omega
  · rw [List.mem_insertionSort]
    simp [mriMem, same]

/--
A passed check among few enough files rules out a file of another transaction
with a greater identifier, and one of a transaction with a success log.
-/
theorem checkForConcurrentTxnConflict_ok (wellNamed : WellNamed files) {endTime : SuccessLog}
    (few : contenders files current ≤ defaultPageSize)
    (passed : checkForConcurrentTxnConflict files endTime current = .ok ())
    {mri : MetafileRevisionInfo} (mriMem : mri ∈ files) (same : mri.revision = current.revision)
    (other : mri.txnId ≠ current.txnId) :
    mri.txnId.text < current.txnId.text ∧ ∀ time, endTime mri.txnId = some time → time = 0 := by
  have inPage := mem_page_of_contenders wellNamed few mriMem same
  simp only [checkForConcurrentTxnConflict] at passed
  split at passed
  · cases passed
  · have descending := (descending_revision wellNamed current.revision).sublist
      (List.take_sublist defaultPageSize _)
    cases found : findConflicts current
        (sortedFilePaths files current.revision defaultPageSize) [] with
    | error => simp [found, bind, Except.bind] at passed
    | ok conflictMris =>
        rcases (findConflicts_ok descending found).2 mri inPage same other with
          ⟨isConflict, lower⟩
        refine ⟨lower, ?_⟩
        simp only [found, bind, Except.bind, ite_eq_right_iff, reduceCtorEq, imp_false,
          List.any_eq_true, not_exists, not_and, Bool.not_eq_true] at passed
        intro time logged
        have unlogged := passed mri isConflict
        simpa [logged] using unlogged

end Conflicts

/-- What a transaction may see: its own files, and files of transactions that ended before it. -/
def IsVisible (txnId : TransactionId) (startTime : ℕ) (endTime : SuccessLog)
    (mri : MetafileRevisionInfo) : Prop :=
  mri.txnId = txnId ∨ ∃ time, endTime mri.txnId = some time ∧ time < startTime

theorem isVisible_iff_any {txnId : TransactionId} {startTime : ℕ} {endTime : SuccessLog}
    {mri : MetafileRevisionInfo} :
    IsVisible txnId startTime endTime mri ↔
      mri.txnId = txnId ∨ (endTime mri.txnId).any (· < startTime) = true := by
  simp [IsVisible, Option.any_eq_true_iff_get, Option.eq_some_iff_get_eq]

instance (txnId : TransactionId) (startTime : ℕ) (endTime : SuccessLog) :
    DecidablePred (IsVisible txnId startTime endTime) :=
  fun _ => decidable_of_iff _ isVisible_iff_any.symm

/-- A reading transaction counts a file as committed exactly when it may see it. -/
theorem isCommitted_eq (txnId : TransactionId) (startTime : ℕ) (endTime : SuccessLog)
    (mri : MetafileRevisionInfo) :
    isCommitted ⟨some txnId, some startTime⟩ endTime mri =
      .ok (decide (IsVisible txnId startTime endTime mri)) := by
  unfold isCommitted
  by_cases own : mri.txnId = txnId
  · simp [own, IsVisible]
  · simp only [own, if_false, isVisible_iff_any, false_or]
    simp

/-- A result is the greatest visible revision, or nothing when nothing is visible. -/
def IsLatestVisible (files : List MetafileRevisionInfo) (visible : MetafileRevisionInfo → Prop) :
    Except Error (Option MetafileRevisionInfo) → Prop
  | .ok (some mri) =>
      mri ∈ files ∧ visible mri ∧ ∀ other ∈ files, visible other → other.revision ≤ mri.revision
  | .ok none => ∀ mri ∈ files, ¬visible mri
  | .error _ => False

/--
The greatest visible revision number is one a scan starts at or below, and the
file with the greatest name among the files of that number is visible.
-/
def Unshadowed (files : List MetafileRevisionInfo) (visible : MetafileRevisionInfo → Prop) : Prop :=
  ∀ mri ∈ files, visible mri →
    (∀ other ∈ files, visible other → other.revision ≤ mri.revision) →
      mri.revision ≤ maxRevisionNumber ∧
        ∃ head, IsHead files head ∧ head.revision = mri.revision ∧ visible head

/-- Some file has the greatest visible revision number, if any file is visible. -/
theorem exists_greatest_visible {files : List MetafileRevisionInfo}
    {visible : MetafileRevisionInfo → Prop} {mri : MetafileRevisionInfo} (mriMem : mri ∈ files)
    (isVisible : visible mri) :
    ∃ greatest ∈ files, visible greatest ∧
      ∀ other ∈ files, visible other → other.revision ≤ greatest.revision := by
  classical
  have nonempty : (files.filter fun other => decide (visible other)).toFinset.Nonempty :=
    ⟨mri, by simp [mriMem, isVisible]⟩
  rcases Finset.exists_max_image _ MetafileRevisionInfo.revision nonempty with
    ⟨greatest, greatestMem, isGreatest⟩
  simp only [List.mem_toFinset, List.mem_filter, decide_eq_true_eq] at greatestMem isGreatest
  exact ⟨greatest, greatestMem.1, greatestMem.2, fun other otherMem otherVisible =>
    isGreatest other ⟨otherMem, otherVisible⟩⟩

/-- A scan from the greatest number is correct exactly when nothing shadows the latest revision. -/
theorem ScanResult.isLatestVisible_iff {files : List MetafileRevisionInfo}
    {visible : MetafileRevisionInfo → Prop} {result : Option MetafileRevisionInfo}
    (isResult : ScanResult files visible maxRevisionNumber result) :
    IsLatestVisible files visible (.ok result) ↔ Unshadowed files visible := by
  constructor
  · intro isLatest mri mriMem isVisible isGreatest
    cases result with
    | none => exact absurd isVisible (isLatest mri mriMem)
    | some found =>
        rcases isResult with ⟨foundHead, foundVisible, foundAtMost, _⟩
        have same : found.revision = mri.revision :=
          le_antisymm (isGreatest found foundHead.mem foundVisible)
            (isLatest.2.2 mri mriMem isVisible)
        exact ⟨same ▸ foundAtMost, found, foundHead, same, foundVisible⟩
  · intro unshadowed
    cases result with
    | none =>
        intro mri mriMem isVisible
        rcases exists_greatest_visible mriMem isVisible with
          ⟨greatest, greatestMem, greatestVisible, isGreatest⟩
        rcases unshadowed greatest greatestMem greatestVisible isGreatest with
          ⟨atMost, head, isHead, sameRevision, headVisible⟩
        exact isResult head isHead (sameRevision ▸ atMost) headVisible
    | some found =>
        rcases isResult with ⟨foundHead, foundVisible, _, foundGreatest⟩
        refine ⟨foundHead.mem, foundVisible, ?_⟩
        intro other otherMem otherVisible
        rcases exists_greatest_visible otherMem otherVisible with
          ⟨greatest, greatestMem, greatestVisible, isGreatest⟩
        rcases unshadowed greatest greatestMem greatestVisible isGreatest with
          ⟨atMost, head, isHead, sameRevision, headVisible⟩
        calc
          other.revision ≤ greatest.revision := isGreatest other otherMem otherVisible
          _ = head.revision := sameRevision.symm
          _ ≤ found.revision := foundGreatest head isHead headVisible (sameRevision ▸ atMost)

/-- The scan of a list of files, for any reader that decides what it sees. -/
theorem latestRevision_scan_of {files : List MetafileRevisionInfo} (wellNamed : WellNamed files)
    {reader : Reader} {endTime : SuccessLog} {visible : MetafileRevisionInfo → Prop}
    [DecidablePred visible]
    (decides : ∀ mri, isCommitted reader endTime mri = .ok (decide (visible mri))) :
    ∃ result, ScanResult files visible maxRevisionNumber result ∧
      latestRevision files reader endTime = .ok result := by
  have enough : remaining files maxRevisionNumber < files.length + 1 :=
    Nat.lt_succ_of_le (List.length_filter_le _ _)
  rcases scan_spec wellNamed (by decide : 0 < max 1 defaultPageSize) decides _ maxRevisionNumber
      (fun _ _ _ => rfl) (by decide) enough with ⟨result, isResult, scanned⟩
  refine ⟨result, isResult, ?_⟩
  rw [latestRevision, listRevisions]
  simp only [Nat.cast_one, scanned]
  cases result <;> rfl

theorem latestRevision_scan {files : List MetafileRevisionInfo} (wellNamed : WellNamed files)
    (txnId : TransactionId) (startTime : ℕ) (endTime : SuccessLog) :
    ∃ result, ScanResult files (IsVisible txnId startTime endTime) maxRevisionNumber result ∧
      latestRevision files ⟨some txnId, some startTime⟩ endTime = .ok result :=
  latestRevision_scan_of wellNamed (isCommitted_eq txnId startTime endTime)

/-- A new revision is the transaction's own and follows a revision that the scan can reach. -/
theorem newRevision_ok {files : List MetafileRevisionInfo} (wellNamed : WellNamed files)
    {opType : TransactionOperationType} {startTime : ℕ} {txnId : TransactionId}
    {endTime : SuccessLog} {mri : MetafileRevisionInfo}
    (isNew : newRevision files opType startTime txnId endTime = .ok mri) :
    mri.txnId = txnId ∧ mri.txnOpType = opType ∧ 0 < mri.revision ∧
      mri.revision ≤ maxRevisionNumber + 1 := by
  rcases latestRevision_scan wellNamed txnId startTime endTime with ⟨result, isResult, scanned⟩
  simp only [newRevision, scanned, bind, Except.bind] at isNew
  cases result with
  | none =>
      simp only [ite_eq_iff, Except.ok.injEq, reduceCtorEq, and_false, or_false] at isNew
      rcases isNew with ⟨_, rfl⟩
      exact ⟨rfl, rfl, Nat.one_pos, by simp⟩
  | some latest =>
      have atMost := isResult.2.2.1
      have follows : mri = ⟨latest.revision + 1, opType, txnId⟩ := by
        simp only at isNew
        split at isNew
        · split at isNew
          · exact (Except.ok.inj isNew).symm
          · cases isNew
        · split at isNew
          · cases isNew
          · exact (Except.ok.inj isNew).symm
      subst follows
      exact ⟨rfl, rfl, Nat.succ_pos _, Nat.succ_le_succ atMost⟩

end MetafileRevisionInfo

namespace RevisionDirectory

open MetafileRevisionInfo

/-- `latest_revision` with `ignore_missing_revision` on the directory tree. -/
def latestRevision (directory : RevisionDirectory) (reader : Reader) (endTime : SuccessLog) :
    Except Error (Option MetafileRevisionInfo) :=
  (listRevisionsFrom
    (fun partitionValue => diskPage directory.filesystem partitionValue (max 1 defaultPageSize))
    (isCommitted reader endTime) (directory.files.length + 1) maxRevisionNumber 1 []).map List.head?

theorem wellNamed (directory : RevisionDirectory) : WellNamed directory.files where
  positive := fun _ mriMem => (directory.partitionable mriMem).1
  fits := fun _ mriMem => revision_lt_of_partitionable (directory.partitionable mriMem)
  isWrite := directory.isWrite

theorem partitionable_of_le_maxRevisionNumber {value : ℕ} (positive : 0 < value)
    (atMost : value ≤ maxRevisionNumber) : Partitionable value := by
  refine ⟨positive, ?_⟩
  unfold maxRevisionNumber at atMost
  unfold outerCapacity outerMultiplier unsignedInt64MaxValue
  omega

/-- The scan of the directory tree, as a property of the files in it. -/
theorem latestRevision_spec (directory : RevisionDirectory) (txnId : TransactionId)
    (startTime : ℕ) (endTime : SuccessLog) :
    ∃ result, ScanResult directory.files (IsVisible txnId startTime endTime) maxRevisionNumber
        result ∧
      directory.latestRevision ⟨some txnId, some startTime⟩ endTime = .ok result := by
  have enough : remaining directory.files maxRevisionNumber < directory.files.length + 1 :=
    Nat.lt_succ_of_le (List.length_filter_le _ _)
  rcases scan_spec directory.wellNamed (by decide) (isCommitted_eq txnId startTime endTime) _
      maxRevisionNumber (fun value positive atMost =>
        directory.diskPage_eq (partitionable_of_le_maxRevisionNumber positive atMost)
          (by decide : 0 < max 1 defaultPageSize)) (by decide) enough with
    ⟨result, isResult, scanned⟩
  refine ⟨result, isResult, ?_⟩
  rw [latestRevision, scanned]
  cases result <;> rfl

/--
`latest_revision` returns the greatest revision that the reading transaction may
see exactly when no invisible file precedes that revision's files in the scan.
-/
theorem latestRevision_correct_iff (directory : RevisionDirectory) (txnId : TransactionId)
    (startTime : ℕ) (endTime : SuccessLog) :
    IsLatestVisible directory.files (IsVisible txnId startTime endTime)
        (directory.latestRevision ⟨some txnId, some startTime⟩ endTime) ↔
      Unshadowed directory.files (IsVisible txnId startTime endTime) := by
  rcases directory.latestRevision_spec txnId startTime endTime with ⟨result, isResult, found⟩
  rw [found]
  exact isResult.isLatestVisible_iff

/-- The transaction that created the object. -/
def creator : TransactionId := .numbered 10 0

/-- The transaction that committed the second revision. -/
def winner : TransactionId := .numbered 20 1

/-- A concurrent transaction that wrote its second revision when the other one had committed. -/
def loser : TransactionId := .numbered 21 2

theorem partitionable_created :
    Partitionable (⟨1, .create, creator⟩ : MetafileRevisionInfo).revision :=
  partitionable_of_le_maxRevisionNumber (by decide) (by decide)

theorem isWriteOperation_created :
    (⟨1, .create, creator⟩ : MetafileRevisionInfo).txnOpType.isWriteOperation := rfl

/-- The directory before the losing transaction has cleaned up. -/
def contended : RevisionDirectory :=
  ((empty.write ⟨1, .create, creator⟩ partitionable_created isWriteOperation_created).write
    ⟨2, .update, winner⟩ (partitionable_of_le_maxRevisionNumber (by decide) (by decide)) rfl).write
    ⟨2, .update, loser⟩ (partitionable_of_le_maxRevisionNumber (by decide) (by decide)) rfl

/-- The success log of the two committed transactions. -/
def contendedLog : SuccessLog := fun txnId =>
  if txnId = creator then some 11 else if txnId = winner then some 30 else none

private theorem latestRevision_contended :
    contended.latestRevision ⟨some ⟨40, "d", by decide⟩, some 40⟩ contendedLog =
      .ok (some ⟨1, .create, creator⟩) := by
  decide +kernel

/--
A file that is not committed hides a committed revision of the same number: a
transaction that starts after the second revision was committed is given the
first one.
-/
theorem latestRevision_hidden :
    ¬IsLatestVisible contended.files (IsVisible ⟨40, "d", by decide⟩ 40 contendedLog)
      (contended.latestRevision ⟨some ⟨40, "d", by decide⟩, some 40⟩ contendedLog) := by
  rw [latestRevision_contended]
  rintro ⟨_, _, isGreatest⟩
  have atMost := isGreatest ⟨2, .update, winner⟩ (by decide) (by decide)
  revert atMost
  decide

end RevisionDirectory

end Deltacat.Storage
