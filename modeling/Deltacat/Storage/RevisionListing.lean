import Deltacat.Storage.RevisionScan

/-!
# Listing several revisions

In every round, `list_revisions` lowers its limit by the number of all the revisions that
it has found so far, rather than by those that the round has found. A revision that was
found is therefore charged once for itself and once for every older file that the scan
looks at, and the scan may stop before it has found as many revisions as it was asked for
(`listRevisions_isNewest_iff`).
-/

namespace Deltacat.Storage

open Deltacat.Library Deltacat.Utils

section Rounds

universe u

variable {Item : Type u} (visible : Item → Bool)

/-- The rounds of `list_revisions` over the files from the newest one on. -/
def collectVisible : List Item → ℤ → List Item → List Item
  | [], _, revisions => revisions
  | item :: items, limit, revisions =>
      let revisions := if visible item then revisions ++ [item] else revisions
      let limit := limit - revisions.length
      if limit ≤ 0 then revisions else collectVisible items limit revisions

/-- What the visible items have been charged for when the scan has looked at some items. -/
def charged : List Item → ℕ
  | [] => 0
  | item :: items => (if visible item then items.length + 1 else 0) + charged items

/-- The scan gets to each of the first visible items before the limit is used up. -/
def WithinLimit (items : List Item) (wanted found : ℕ) (limit : ℤ) : Prop :=
  ∀ front item back, items = front ++ item :: back → visible item →
    (front.filter visible).length < wanted →
      ((found * front.length + charged visible front : ℕ) : ℤ) < limit

variable {visible} {head : Item} {items : List Item} {wanted found : ℕ} {limit : ℤ}

private theorem forall_split_cons {motive : List Item → Item → List Item → Prop} :
    (∀ front item back, head :: items = front ++ item :: back → motive front item back) ↔
      motive [] head items ∧
        ∀ front item back, items = front ++ item :: back → motive (head :: front) item back := by
  constructor
  · intro all
    exact ⟨all [] head items rfl, fun front item back split => all _ item back (by rw [split]; rfl)⟩
  · rintro ⟨atHead, inTail⟩ front item back split
    rcases front with _ | ⟨first, front⟩
    · cases split
      exact atHead
    · cases split
      exact inTail front item back rfl

theorem withinLimit_cons_visible (isVisible : visible head) (positive : 0 < limit) :
    WithinLimit visible (head :: items) (wanted + 1) found limit ↔
      WithinLimit visible items wanted (found + 1) (limit - (found + 1 : ℕ)) := by
  rw [WithinLimit, forall_split_cons, and_iff_right (fun _ _ => by simpa [charged] using positive)]
  apply forall_congr'
  intro front
  apply forall₂_congr
  intro item back
  rw [List.filter_cons_of_pos isVisible, List.length_cons, Nat.add_lt_add_iff_right]
  have total : (found * (head :: front).length + charged visible (head :: front) : ℕ) =
      ((found + 1) * front.length + charged visible front) + (found + 1) := by
    simp only [charged, isVisible, if_true, List.length_cons]
    ring
  rw [total, Nat.cast_add, lt_sub_iff_add_lt]

theorem withinLimit_cons_invisible (isInvisible : ¬visible head) :
    WithinLimit visible (head :: items) wanted found limit ↔
      WithinLimit visible items wanted found (limit - found) := by
  rw [WithinLimit, forall_split_cons, and_iff_right (fun isVisible => absurd isVisible isInvisible)]
  apply forall_congr'
  intro front
  apply forall₂_congr
  intro item back
  rw [List.filter_cons_of_neg isInvisible]
  have total : (found * (head :: front).length + charged visible (head :: front) : ℕ) =
      (found * front.length + charged visible front) + found := by
    simp only [charged, isInvisible, if_false, List.length_cons, Bool.false_eq_true]
    ring
  rw [total, Nat.cast_add, lt_sub_iff_add_lt]

/-- With the limit used up no visible item may be wanted any more. -/
theorem withinLimit_of_nonpos (usedUp : limit ≤ 0) :
    WithinLimit visible items wanted found limit ↔ (items.filter visible).take wanted = [] := by
  rw [List.take_eq_nil_iff, List.filter_eq_nil_iff]
  constructor
  · intro within
    by_contra someWanted
    rw [not_or] at someWanted
    obtain ⟨someWanted, someVisible⟩ := someWanted
    have isSome : (items.find? visible).isSome := by
      rw [List.find?_isSome]
      simpa using someVisible
    obtain ⟨first, isFirst⟩ := Option.isSome_iff_exists.mp isSome
    obtain ⟨isVisible, front, back, split, noneBefore⟩ := List.find?_eq_some_iff_append.mp isFirst
    have noneFound : (front.filter visible).length = 0 := by
      rw [List.length_eq_zero_iff, List.filter_eq_nil_iff]
      simpa using noneBefore
    have less := within front first back split isVisible (by omega)
    omega
  · rintro (noneWanted | noneVisible) front item back split isVisible less
    · omega
    · exact absurd isVisible (noneVisible item (by simp [split]))

/--
The rounds find the wanted visible items if and only if they stay within the limit. The
induction is on the items; the limit never exceeds the number of items that are wanted.
-/
theorem collectVisible_eq_iff {revisions : List Item} (positive : 0 < limit)
    (atMost : limit ≤ wanted) :
    collectVisible visible items limit revisions =
        revisions ++ (items.filter visible).take wanted ↔
      WithinLimit visible items wanted revisions.length limit := by
  induction items generalizing limit wanted revisions with
  | nil =>
      refine iff_of_true (by simp [collectVisible]) ?_
      intro front item back split
      simp at split
  | cons head items ih =>
      by_cases isVisible : visible head
      · obtain ⟨wanted, rfl⟩ : ∃ fewer, wanted = fewer + 1 := ⟨wanted - 1, by omega⟩
        rw [withinLimit_cons_visible isVisible positive, List.filter_cons_of_pos isVisible,
          List.take_succ_cons]
        simp only [collectVisible, isVisible, if_true, List.length_append, List.length_singleton]
        split_ifs with usedUp
        · rw [withinLimit_of_nonpos usedUp]
          simp
        · rw [List.append_cons revisions head (List.take _ _), ih (not_le.mp usedUp) (by omega),
            List.length_append, List.length_singleton]
      · rw [withinLimit_cons_invisible isVisible, List.filter_cons_of_neg isVisible]
        simp only [collectVisible, isVisible, if_false, Bool.false_eq_true]
        split_ifs with usedUp
        · rw [withinLimit_of_nonpos usedUp]
          simp
        · exact ih (not_le.mp usedUp) (by omega)

theorem mem_of_mem_collectVisible {revisions : List Item} {item : Item}
    (itemMem : item ∈ collectVisible visible items limit revisions) :
    item ∈ revisions ∨ item ∈ items := by
  induction items generalizing limit revisions with
  | nil => exact Or.inl itemMem
  | cons head items ih =>
      have found : item ∈ (if visible head then revisions ++ [head] else revisions) ∨
          item ∈ items := by
        simp only [collectVisible] at itemMem
        split_ifs at itemMem ⊢
        · exact Or.inl itemMem
        · exact ih itemMem
        · exact Or.inl itemMem
        · exact ih itemMem
      split_ifs at found
      · rw [List.mem_append, List.mem_singleton] at found
        rw [List.mem_cons]
        tauto
      · exact found.imp_right (List.mem_cons_of_mem head)

end Rounds

namespace MetafileRevisionInfo

variable {files : List MetafileRevisionInfo}

/-- One file for each revision number. -/
def OnePerRevision (files : List MetafileRevisionInfo) : Prop :=
  (files.map (·.revision)).Nodup

/-- The files at or below a revision number, the newest one first. -/
def newestFirst (files : List MetafileRevisionInfo) (bound : ℕ) : List MetafileRevisionInfo :=
  (files.filter (·.revision ≤ bound)).insertionSort Descending

theorem pairwise_newestFirst (wellNamed : WellNamed files) (distinct : OnePerRevision files)
    (bound : ℕ) :
    (newestFirst files bound).Pairwise fun left right => right.revision < left.revision := by
  have differ : (newestFirst files bound).Pairwise fun left right =>
      left.revision ≠ right.revision := by
    rw [← List.pairwise_map]
    have inFiles : ((files.filter (·.revision ≤ bound)).map (·.revision)).Nodup :=
      distinct.sublist (List.filter_sublist.map _)
    exact ((List.perm_insertionSort Descending _).map _).nodup_iff.mpr inFiles
  exact (descending_revision wellNamed bound).imp₂
    (fun _ _ le differ => lt_of_le_of_ne le differ.symm) differ

theorem mem_newestFirst {bound : ℕ} {mri : MetafileRevisionInfo} :
    mri ∈ newestFirst files bound ↔ mri ∈ files ∧ mri.revision ≤ bound := by
  simp [newestFirst, List.mem_insertionSort]

/-- Files with descending revision numbers are listed in one way only. -/
theorem eq_of_descending {left right : List MetafileRevisionInfo}
    (leftOrdered : left.Pairwise fun newer older => older.revision < newer.revision)
    (rightOrdered : right.Pairwise fun newer older => older.revision < newer.revision)
    (sameFiles : ∀ mri, mri ∈ left ↔ mri ∈ right) : left = right := by
  have nodup : ∀ {listed : List MetafileRevisionInfo},
      listed.Pairwise (fun newer older => older.revision < newer.revision) → listed.Nodup :=
    fun ordered => ordered.imp fun less same => less.ne' (congrArg revision same)
  apply List.Perm.eq_of_pairwise _ leftOrdered rightOrdered
  · exact (List.perm_ext_iff_of_nodup (nodup leftOrdered) (nodup rightOrdered)).mpr sameFiles
  · intro newer older _ _ forth back
    exact absurd forth back.not_gt

/-- Below the first file come the other files. -/
theorem newestFirst_cons (wellNamed : WellNamed files) (distinct : OnePerRevision files)
    {bound : ℕ} {mri : MetafileRevisionInfo} {older : List MetafileRevisionInfo}
    (isFirst : newestFirst files bound = mri :: older) :
    newestFirst files (mri.revision - 1) = older := by
  have ordered := pairwise_newestFirst wellNamed distinct bound
  rw [isFirst, List.pairwise_cons] at ordered
  have mriMem := mem_newestFirst.mp (isFirst ▸ List.mem_cons_self)
  have sameFiles : ∀ other, other ∈ newestFirst files (mri.revision - 1) ↔ other ∈ older := by
    intro other
    rw [mem_newestFirst]
    constructor
    · rintro ⟨otherMem, below⟩
      have mriPositive := wellNamed.positive mri mriMem.1
      have inPage : other ∈ newestFirst files bound := mem_newestFirst.mpr ⟨otherMem, by omega⟩
      rw [isFirst] at inPage
      rcases List.mem_cons.mp inPage with rfl | isOlder
      · omega
      · exact isOlder
    · intro isOlder
      have less := ordered.1 other isOlder
      have otherMem := mem_newestFirst.mp (isFirst ▸ List.mem_cons_of_mem mri isOlder)
      exact ⟨otherMem.1, by omega⟩
  exact eq_of_descending (pairwise_newestFirst wellNamed distinct _) ordered.2 sameFiles

/-- The scan is the rounds over the files from the newest one on. -/
theorem listRevisionsFrom_eq (wellNamed : WellNamed files) (distinct : OnePerRevision files)
    {pageSize : ℕ} (pagePositive : 0 < pageSize)
    {nextPageProvider : ℕ → Except Error (List MetafileRevisionInfo)}
    {committed : MetafileRevisionInfo → Except Error Bool} {visible : MetafileRevisionInfo → Bool}
    (decides : ∀ mri, committed mri = .ok (visible mri)) (fuel bound : ℕ)
    (provides : ∀ value, 0 < value → value ≤ bound →
      nextPageProvider value = .ok (sortedFilePaths files value pageSize))
    (positive : 0 < bound) (enough : (newestFirst files bound).length < fuel) (limit : ℤ)
    (revisions : List MetafileRevisionInfo) :
    listRevisionsFrom nextPageProvider committed fuel bound limit revisions =
      .ok (collectVisible visible (newestFirst files bound) limit revisions) := by
  induction fuel generalizing bound limit revisions with
  | zero => omega
  | succ fuel ih =>
      rw [listRevisionsFrom, provides bound positive le_rfl]
      rcases isPage : newestFirst files bound with _ | ⟨mri, older⟩
      · have noPage : sortedFilePaths files bound pageSize = [] :=
          (congrArg (List.take pageSize) isPage).trans List.take_nil
        rw [noPage]
        rfl
      · obtain ⟨size, rfl⟩ : ∃ size, pageSize = size + 1 := ⟨pageSize - 1, by omega⟩
        have page : sortedFilePaths files bound (size + 1) = mri :: older.take size :=
          congrArg (List.take (size + 1)) isPage
        have mriMem : mri ∈ files ∧ mri.revision ≤ bound :=
          mem_newestFirst.mp (isPage ▸ List.mem_cons_self)
        have isOlder := newestFirst_cons wellNamed distinct isPage
        rw [page]
        simp only [bind, Except.bind, decides, collectVisible]
        by_cases usedUp :
          limit - ((if visible mri then revisions ++ [mri] else revisions).length : ℤ) ≤ 0
        · rw [if_pos (Or.inl usedUp), if_pos usedUp]
        · rw [if_neg usedUp]
          by_cases isFirst : mri.revision ≤ 1
          · have noOlder : older = [] := by
              have ordered := pairwise_newestFirst wellNamed distinct bound
              rw [isPage, List.pairwise_cons] at ordered
              rw [List.eq_nil_iff_forall_not_mem]
              intro other isOlder
              have less := ordered.1 other isOlder
              have otherPositive := wellNamed.positive other
                (mem_newestFirst.mp (isPage ▸ List.mem_cons_of_mem mri isOlder)).1
              omega
            rw [if_pos (Or.inr isFirst), noOlder]
            rfl
          · have positive := wellNamed.positive mri mriMem.1
            rw [if_neg (not_or.mpr ⟨usedUp, isFirst⟩), ih, isOlder]
            · exact fun value positive atMost => provides value positive (by omega)
            · omega
            · rw [isOlder]
              rw [isPage, List.length_cons] at enough
              omega

/-- The visible files, the newest one first. -/
def newestVisible (files : List MetafileRevisionInfo) (visible : MetafileRevisionInfo → Bool) :
    List MetafileRevisionInfo :=
  (files.filter visible).insertionSort fun newer older => older.revision ≤ newer.revision

theorem mem_newestVisible {visible : MetafileRevisionInfo → Bool} {mri : MetafileRevisionInfo} :
    mri ∈ newestVisible files visible ↔ mri ∈ files ∧ visible mri := by
  simp [newestVisible, List.mem_insertionSort]

theorem pairwise_newestVisible (distinct : OnePerRevision files)
    (visible : MetafileRevisionInfo → Bool) :
    (newestVisible files visible).Pairwise fun newer older => older.revision < newer.revision := by
  have differ : (newestVisible files visible).Pairwise fun newer older =>
      newer.revision ≠ older.revision := by
    rw [← List.pairwise_map]
    exact ((List.perm_insertionSort _ _).map _).nodup_iff.mpr
      (distinct.sublist (List.filter_sublist.map _))
  have sorted := List.pairwise_insertionSort
    (fun newer older : MetafileRevisionInfo => older.revision ≤ newer.revision)
    (files.filter visible)
  exact sorted.imp₂ (fun _ _ le differ => lt_of_le_of_ne le differ.symm) differ

/-- Exactly the scans that stay within the limit find the newest visible files. -/
theorem collectVisible_eq_newestVisible_iff (wellNamed : WellNamed files)
    (distinct : OnePerRevision files) (visible : MetafileRevisionInfo → Bool) {bound limit : ℕ}
    (positive : 0 < limit) :
    collectVisible visible (newestFirst files bound) limit [] =
        (newestVisible files visible).take limit ↔
      (∀ mri ∈ files, visible mri → mri.revision ≤ bound) ∧
        WithinLimit visible (newestFirst files bound) limit 0 limit := by
  by_cases inBound : ∀ mri ∈ files, visible mri → mri.revision ≤ bound
  · have isFiltered : newestVisible files visible = (newestFirst files bound).filter visible := by
      apply eq_of_descending (pairwise_newestVisible distinct visible)
        ((pairwise_newestFirst wellNamed distinct bound).sublist List.filter_sublist)
      intro mri
      rw [mem_newestVisible, List.mem_filter, mem_newestFirst]
      constructor
      · rintro ⟨mriMem, isVisible⟩
        exact ⟨⟨mriMem, inBound mri mriMem isVisible⟩, isVisible⟩
      · rintro ⟨⟨mriMem, -⟩, isVisible⟩
        exact ⟨mriMem, isVisible⟩
    rw [and_iff_right inBound, isFiltered]
    exact collectVisible_eq_iff (by exact_mod_cast positive) le_rfl
  · refine iff_of_false ?_ fun within => inBound within.1
    intro isNewest
    simp only [not_forall, not_le] at inBound
    obtain ⟨mri, mriMem, isVisible, above⟩ := inBound
    have inVisible := mem_newestVisible.mpr ⟨mriMem, isVisible⟩
    have ordered := pairwise_newestVisible distinct visible
    obtain ⟨newest, older, isFirst⟩ := List.exists_cons_of_ne_nil (List.ne_nil_of_mem inVisible)
    rw [isFirst] at inVisible ordered isNewest
    obtain ⟨size, rfl⟩ : ∃ size, limit = size + 1 := ⟨limit - 1, by omega⟩
    have isFound : newest ∈ collectVisible visible (newestFirst files bound) (size + 1 : ℕ) [] := by
      rw [isNewest]
      exact List.mem_cons_self
    have newestInBound := mem_newestFirst.mp
      ((mem_of_mem_collectVisible isFound).resolve_left List.not_mem_nil)
    rcases List.mem_cons.mp inVisible with rfl | isOlder
    · omega
    · have less := List.rel_of_pairwise_cons ordered isOlder
      omega

end MetafileRevisionInfo

namespace RevisionDirectory

open MetafileRevisionInfo

/-- `list_revisions` on the directory tree. -/
def listRevisions (directory : RevisionDirectory) (reader : Reader) (endTime : SuccessLog)
    (limit : ℕ) : Except Error (List MetafileRevisionInfo) :=
  listRevisionsFrom
    (fun partitionValue => diskPage directory.filesystem partitionValue (max limit defaultPageSize))
    (isCommitted reader endTime) (directory.files.length + 1) maxRevisionNumber limit []

/--
`list_revisions` returns the newest visible revisions, as many as it is asked for, if and
only if no visible revision is above `MAX_REVISION_NUMBER` and the scan gets to each of
them within the limit.
-/
theorem listRevisions_eq_newestVisible_iff (directory : RevisionDirectory)
    (distinct : OnePerRevision directory.files) (txnId : TransactionId) (startTime : ℕ)
    (endTime : SuccessLog) {limit : ℕ} (positive : 0 < limit) :
    directory.listRevisions ⟨some txnId, some startTime⟩ endTime limit =
        .ok ((newestVisible directory.files fun mri =>
          IsVisible txnId startTime endTime mri).take limit) ↔
      (∀ mri ∈ directory.files, IsVisible txnId startTime endTime mri →
          mri.revision ≤ maxRevisionNumber) ∧
        WithinLimit (fun mri => IsVisible txnId startTime endTime mri)
          (newestFirst directory.files maxRevisionNumber) limit 0 limit := by
  have enough : (newestFirst directory.files maxRevisionNumber).length <
      directory.files.length + 1 := by
    rw [newestFirst, List.length_insertionSort]
    exact Nat.lt_succ_of_le (List.length_filter_le _ _)
  have pagePositive : 0 < max limit defaultPageSize := lt_max_of_lt_left positive
  have listed := listRevisionsFrom_eq directory.wellNamed distinct pagePositive
    (isCommitted_eq txnId startTime endTime) _ maxRevisionNumber (fun value positive atMost =>
      directory.diskPage_eq (partitionable_of_le_maxRevisionNumber positive atMost) pagePositive)
    (by decide) enough limit []
  rw [listRevisions, listed, Except.ok.injEq,
    collectVisible_eq_newestVisible_iff directory.wellNamed distinct _ positive]
  simp only [decide_eq_true_eq]

/-- An object that was updated twice by the transaction that created it. -/
def updatedTwice : RevisionDirectory :=
  ((empty.write ⟨1, .create, creator⟩ partitionable_created isWriteOperation_created).write
    ⟨2, .update, creator⟩ (partitionable_of_le_maxRevisionNumber (by decide) (by decide)) rfl).write
    ⟨3, .update, creator⟩ (partitionable_of_le_maxRevisionNumber (by decide) (by decide)) rfl

/-- The two newest of the three revisions are found if two are asked for. -/
theorem listRevisions_updatedTwice :
    updatedTwice.listRevisions ⟨some creator, some 10⟩ (fun _ => none) 2 =
      .ok ((newestVisible updatedTwice.files fun mri =>
        IsVisible creator 10 (fun _ => none) mri).take 2) := by
  refine (listRevisions_eq_newestVisible_iff updatedTwice (by simp [OnePerRevision]; decide) creator
    10 (fun _ => none) (by decide)).mpr ⟨by decide, ?_⟩
  have isList : newestFirst updatedTwice.files maxRevisionNumber =
      [⟨3, .update, creator⟩, ⟨2, .update, creator⟩, ⟨1, .create, creator⟩] := by decide +kernel
  rw [isList]
  rintro (_ | ⟨newest, _ | ⟨second, front⟩⟩) item back split - few
  · decide
  · cases split
    decide
  · simp only [List.cons_append, List.cons.injEq] at split
    obtain ⟨rfl, rfl, -⟩ := split
    have bothVisible : IsVisible creator 10 (fun _ => none) ⟨3, .update, creator⟩ ∧
        IsVisible creator 10 (fun _ => none) ⟨2, .update, creator⟩ := by decide
    simp [bothVisible] at few

/-- The oldest of the three revisions is not found if three are asked for. -/
theorem not_listRevisions_updatedTwice :
    ¬updatedTwice.listRevisions ⟨some creator, some 10⟩ (fun _ => none) 3 =
      .ok ((newestVisible updatedTwice.files fun mri =>
        IsVisible creator 10 (fun _ => none) mri).take 3) := by
  decide +kernel

end RevisionDirectory

end Deltacat.Storage
