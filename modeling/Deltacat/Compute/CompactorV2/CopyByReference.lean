import Deltacat.Library.Procedure
import Deltacat.Storage.DeltaMerge

/-!
# Copying buckets by reference

The files of a hash bucket without new deltas are copied from the compacted manifest of the
previous round by listing its entries again. The loop over the buckets collects the entries
of all of them in one list, and puts the manifest that it has made last in the place of the
previous one, so that it works for a single bucket (`copiesEachOnce_iff`).

All the manifests share the list that the loop collects. A manifest gets a list of its own
when its entries are read for the first time, which a later bucket with entries does.
-/

namespace Deltacat.Compute.CompactorV2

open Deltacat.Library Deltacat.Storage

/-- `PyArrowWriteResult`. -/
structure PyArrowWriteResult where
  files : ℕ
  pyarrowBytes : ℕ
  fileBytes : ℕ
  records : ℕ
  deriving DecidableEq

/-- `MaterializeResult`. -/
structure MaterializeResult where
  delta : Delta
  taskIndex : ℕ
  pyarrowWriteResult : PyArrowWriteResult
  referencedPyarrowWriteResult : Option PyArrowWriteResult
  deriving DecidableEq

/-- The ranges of the entries of the buckets, from the first entry to the one after the last. -/
abbrev EntryRanges := ℕ → Option (ℕ × ℕ)

/-- A manifest made for a bucket, with its own list of entries if it was read. -/
structure Copy where
  hbIndex : ℕ
  manifest : Manifest
  ownEntries : Option (List ManifestEntry)

/-- The list that is shared by the copies, which begin with the last one. -/
structure CopyState where
  referenced : List ManifestEntry
  copies : List Copy

namespace CopyState

/-- The entries that a manifest has at this point. -/
def entriesOf (state : CopyState) (copy : Copy) : List ManifestEntry :=
  copy.ownEntries.getD state.referenced

/-- The entries of the manifest that the loop takes for the compacted one. -/
def currentEntries (compactedManifest : Option Manifest) (state : CopyState) :
    Option (List ManifestEntry) :=
  match state.copies with
  | [] => compactedManifest.map (·.entries)
  | copy :: _ => some (state.entriesOf copy)

/-- Reading the entries of a manifest gives it a list of its own. -/
def read (state : CopyState) : CopyState :=
  match state.copies with
  | [] => state
  | copy :: copies =>
      { state with copies := { copy with ownEntries := some (state.entriesOf copy) } :: copies }

end CopyState

open CopyState

/-- One entry of a bucket is referenced. -/
def copyEntry (compactedManifest : Option Manifest) (start : ℕ) (state : CopyState)
    (offset : ℕ) : Except Error CopyState :=
  match state.currentEntries compactedManifest with
  | none => .error .attributeError
  | some entries =>
      match entries[start + offset]? with
      | none => .error .assertionError
      | some entry =>
          .ok { state.read with referenced := state.referenced ++ [entry] }

/-- One bucket is copied, if it has a range; `uuids` are the identifiers that are drawn. -/
def copyBucket (compactedManifest : Option Manifest) (ranges : EntryRanges) (uuids : ℕ → String)
    (state : CopyState) (hbIndex : ℕ) : Except Error CopyState :=
  match ranges hbIndex with
  | none => .ok state
  | some (start, stop) => do
      let state ← (List.range (stop - start)).foldlM (copyEntry compactedManifest start) state
      let manifest ← Manifest.of state.referenced none (uuids state.copies.length) none none
      return { state with copies := ⟨hbIndex, manifest, none⟩ :: state.copies }

/-- The result for a copy, with the entries that its manifest has in the end. -/
def copyResult (writeToPartition : Metafile) (state : CopyState) (copy : Copy) :
    MaterializeResult :=
  let manifest := { copy.manifest with entries := state.entriesOf copy }
  let metadata := copy.manifest.metadata
  let writeResult : PyArrowWriteResult :=
    ⟨copy.manifest.entries.length, metadata.sourceContentLength.getD 0,
      metadata.contentLength.getD 0, metadata.recordCount.getD 0⟩
  { delta := Delta.of ⟨writeToPartition.locator, none⟩ (some .append) (some metadata) (some ∅)
      (some manifest) writeToPartition.streamPosition
    taskIndex := copy.hbIndex
    pyarrowWriteResult := writeResult
    referencedPyarrowWriteResult := some writeResult }

/-- `_copy_all_manifest_files_from_old_hash_buckets`. -/
def copyAllManifestFilesFromOldHashBuckets (hbIndexCopyByReference : List ℕ)
    (hbIndexToEntryRange : Option EntryRanges) (writeToPartition : Metafile)
    (compactedManifest : Option Manifest) (uuids : ℕ → String) :
    Except Error (List MaterializeResult) :=
  match hbIndexToEntryRange with
  | none => .ok []
  | some ranges => do
      let state ← hbIndexCopyByReference.foldlM (copyBucket compactedManifest ranges uuids) ⟨[], []⟩
      return state.copies.reverse.map (copyResult writeToPartition state)

/-- The entries of a manifest in a range. -/
def entriesIn (manifest : Manifest) (range : ℕ × ℕ) : List ManifestEntry :=
  (manifest.entries.drop range.1).take (range.2 - range.1)

/-- The ranges are those of a manifest. -/
structure Indexes (ranges : EntryRanges) (manifest : Manifest) : Prop where
  ordered : ∀ hbIndex range, ranges hbIndex = some range → range.1 ≤ range.2
  bounded : ∀ hbIndex range, ranges hbIndex = some range → range.2 ≤ manifest.entries.length
  apart : ∀ left right leftRange rightRange, left ≠ right → ranges left = some leftRange →
    ranges right = some rightRange → leftRange.2 ≤ rightRange.1 ∨ rightRange.2 ≤ leftRange.1

/-- The buckets that are copied, with their ranges. -/
def copied (hbIndexes : List ℕ) (ranges : EntryRanges) : List (ℕ × ℕ × ℕ) :=
  hbIndexes.filterMap fun hbIndex => (ranges hbIndex).map fun range => (hbIndex, range)

/-- Every bucket with a range has a result with its entries, and no two have one in common. -/
structure CopiesOnce (hbIndexes : List ℕ) (ranges : EntryRanges) (manifest : Manifest)
    (results : List MaterializeResult) : Prop where
  entries : (results.map fun result => (result.taskIndex, result.delta.entries)) =
    (copied hbIndexes ranges).map fun bucket => (bucket.1, entriesIn manifest bucket.2)
  apart : manifest.entries.Nodup → ∀ left ∈ results, ∀ right ∈ results,
    left.taskIndex ≠ right.taskIndex → List.Disjoint left.delta.entries right.delta.entries

variable {compactedManifest : Option Manifest} {ranges : EntryRanges} {uuids : ℕ → String}

section Growth

/-- The manifests only get more entries. -/
structure Grows (state next : CopyState) : Prop where
  referenced : state.referenced.length ≤ next.referenced.length
  copies : ∀ copy ∈ state.copies, ∃ later ∈ next.copies, later.hbIndex = copy.hbIndex ∧
    (state.entriesOf copy).length ≤ (next.entriesOf later).length

/-- No manifest has more entries than the list that was shared with it. -/
def Shared (state : CopyState) : Prop :=
  ∀ copy ∈ state.copies, (state.entriesOf copy).length ≤ state.referenced.length

theorem Grows.refl (state : CopyState) : Grows state state :=
  ⟨le_rfl, fun copy copyMem => ⟨copy, copyMem, rfl, le_rfl⟩⟩

theorem Grows.trans {state middle next : CopyState} (first : Grows state middle)
    (second : Grows middle next) : Grows state next := by
  refine ⟨first.referenced.trans second.referenced, ?_⟩
  intro copy copyMem
  rcases first.copies copy copyMem with ⟨between, betweenMem, sameBucket, atMost⟩
  rcases second.copies between betweenMem with ⟨later, laterMem, alsoSame, alsoAtMost⟩
  exact ⟨later, laterMem, alsoSame.trans sameBucket, atMost.trans alsoAtMost⟩

theorem copyEntry_eq_ok {start offset : ℕ} {state next : CopyState}
    (isNext : copyEntry compactedManifest start state offset = .ok next) :
    ∃ entries entry, state.currentEntries compactedManifest = some entries ∧
      entries[start + offset]? = some entry ∧
      next = { state.read with referenced := state.referenced ++ [entry] } := by
  unfold copyEntry at isNext
  split at isNext
  · cases isNext
  case h_2 entries isCurrent =>
    split at isNext
    · cases isNext
    case h_2 entry isEntry =>
      cases isNext
      exact ⟨entries, entry, isCurrent, isEntry, rfl⟩

theorem entriesOf_append {state : CopyState} {copy : Copy} {entry : ManifestEntry} :
    (state.entriesOf copy).length ≤
      ((⟨state.referenced ++ [entry], state.copies⟩ : CopyState).entriesOf copy).length := by
  cases isOwn : copy.ownEntries <;> simp [entriesOf, isOwn]

theorem copyEntry_grows {start offset : ℕ} {state next : CopyState}
    (isNext : copyEntry compactedManifest start state offset = .ok next) :
    Grows state next ∧ next.referenced.length = state.referenced.length + 1 ∧
      (Shared state → Shared next) := by
  rcases copyEntry_eq_ok isNext with ⟨entries, entry, _, _, rfl⟩
  rcases state with ⟨referenced, copies⟩
  refine ⟨⟨by simp, ?_⟩, by simp, ?_⟩
  · intro copy copyMem
    cases copies with
    | nil => cases copyMem
    | cons last copies =>
        rcases List.mem_cons.mp copyMem with rfl | isEarlier
        · exact ⟨_, List.mem_cons_self, rfl, le_rfl⟩
        · exact ⟨copy, List.mem_cons_of_mem _ isEarlier, rfl, entriesOf_append⟩
  · intro shared copy copyMem
    cases copies with
    | nil => cases copyMem
    | cons last copies =>
        rw [List.length_append, List.length_singleton]
        rcases List.mem_cons.mp copyMem with rfl | isEarlier
        · exact Nat.le_succ_of_le (shared last List.mem_cons_self)
        · have atMost := shared copy (List.mem_cons_of_mem _ isEarlier)
          cases isOwn : copy.ownEntries with
          | none => simp [entriesOf, isOwn]
          | some own =>
              simp only [entriesOf, isOwn, Option.getD_some] at atMost ⊢
              exact Nat.le_succ_of_le atMost

theorem copyEntries_grows {start : ℕ} {offsets : List ℕ} {state next : CopyState}
    (isNext : offsets.foldlM (copyEntry compactedManifest start) state = .ok next) :
    Grows state next ∧ next.referenced.length = state.referenced.length + offsets.length ∧
      (Shared state → Shared next) := by
  induction offsets generalizing state with
  | nil =>
      cases isNext
      exact ⟨Grows.refl _, rfl, id⟩
  | cons offset offsets ih =>
      rw [List.foldlM_cons] at isNext
      rcases except_bind_eq_ok.mp isNext with ⟨middle, isMiddle, afterMiddle⟩
      rcases copyEntry_grows isMiddle with ⟨firstGrows, oneMore, firstShared⟩
      rcases ih afterMiddle with ⟨restGrows, more, restShared⟩
      refine ⟨firstGrows.trans restGrows, ?_, restShared ∘ firstShared⟩
      rw [more, oneMore, List.length_cons]
      omega

/-- A bucket that is copied gets all the entries that were collected before. -/
theorem copyBucket_eq_ok {hbIndex : ℕ} {range : ℕ × ℕ} {state next : CopyState}
    (isRange : ranges hbIndex = some range)
    (isNext : copyBucket compactedManifest ranges uuids state hbIndex = .ok next) :
    Grows state next ∧ (Shared state → Shared next) ∧
      next.referenced.length = state.referenced.length + (range.2 - range.1) ∧
      (∃ copy ∈ next.copies, copy.hbIndex = hbIndex ∧
        next.entriesOf copy = next.referenced) ∧
      (range.1 < range.2 → ∃ entries, state.currentEntries compactedManifest = some entries ∧
        entries ≠ []) := by
  rcases range with ⟨start, stop⟩
  simp only [copyBucket, isRange] at isNext
  rcases except_bind_eq_ok.mp isNext with ⟨middle, isMiddle, afterMiddle⟩
  rcases except_bind_eq_ok.mp afterMiddle with ⟨manifest, _, isResult⟩
  cases isResult
  rcases copyEntries_grows isMiddle with ⟨grows, more, shared⟩
  refine ⟨⟨grows.referenced, ?_⟩, ?_, by simpa using more, ?_, ?_⟩
  · intro copy copyMem
    rcases grows.copies copy copyMem with ⟨later, laterMem, sameBucket, atMost⟩
    exact ⟨later, List.mem_cons_of_mem _ laterMem, sameBucket, atMost⟩
  · intro wasShared copy copyMem
    rcases List.mem_cons.mp copyMem with rfl | isEarlier
    · exact le_rfl
    · exact shared wasShared copy isEarlier
  · exact ⟨_, List.mem_cons_self, rfl, rfl⟩
  · intro nonempty
    obtain ⟨size, isSize⟩ : ∃ size, stop - start = size + 1 :=
      Nat.exists_eq_add_one.mpr (Nat.sub_pos_of_lt nonempty)
    rw [isSize, List.range_succ_eq_map, List.foldlM_cons] at isMiddle
    rcases except_bind_eq_ok.mp isMiddle with ⟨_, isFirst, _⟩
    rcases copyEntry_eq_ok isFirst with ⟨entries, entry, isCurrent, isEntry, _⟩
    refine ⟨entries, isCurrent, ?_⟩
    rintro rfl
    cases isEntry

/-- Some manifest has more entries than its bucket. -/
def Overfull (ranges : EntryRanges) (state : CopyState) : Prop :=
  ∃ copy ∈ state.copies, ∃ range, ranges copy.hbIndex = some range ∧
    range.2 - range.1 < (state.entriesOf copy).length

theorem Overfull.grows {state next : CopyState} (overfull : Overfull ranges state)
    (grows : Grows state next) : Overfull ranges next := by
  rcases overfull with ⟨copy, copyMem, range, isRange, isMore⟩
  rcases grows.copies copy copyMem with ⟨later, laterMem, sameBucket, atMost⟩
  exact ⟨later, laterMem, range, sameBucket ▸ isRange, isMore.trans_le atMost⟩

theorem copyBuckets_grows {hbIndexes : List ℕ} {state final : CopyState}
    (isFinal : hbIndexes.foldlM (copyBucket compactedManifest ranges uuids) state = .ok final) :
    Grows state final := by
  induction hbIndexes generalizing state with
  | nil =>
      cases isFinal
      exact Grows.refl _
  | cons hbIndex hbIndexes ih =>
      rw [List.foldlM_cons] at isFinal
      rcases except_bind_eq_ok.mp isFinal with ⟨middle, isMiddle, afterMiddle⟩
      cases isRange : ranges hbIndex with
      | none =>
          rw [copyBucket, isRange] at isMiddle
          cases isMiddle
          exact ih afterMiddle
      | some range => exact (copyBucket_eq_ok isRange isMiddle).1.trans (ih afterMiddle)

theorem copied_cons {hbIndex : ℕ} {hbIndexes : List ℕ} :
    copied (hbIndex :: hbIndexes) ranges =
      match ranges hbIndex with
      | none => copied hbIndexes ranges
      | some range => (hbIndex, range) :: copied hbIndexes ranges := by
  cases isRange : ranges hbIndex <;> simp [copied, isRange]

/-- After a bucket was copied, the others have to be empty, and there is none if it was not. -/
theorem rest_empty {hbIndexes : List ℕ} {state final : CopyState} (isCopied : state.copies ≠ [])
    (shared : Shared state)
    (isFinal : hbIndexes.foldlM (copyBucket compactedManifest ranges uuids) state = .ok final)
    (notOverfull : ¬Overfull ranges final) :
    (state.referenced ≠ [] → copied hbIndexes ranges = []) ∧
      ∀ bucket ∈ copied hbIndexes ranges, bucket.2.2 ≤ bucket.2.1 := by
  induction hbIndexes generalizing state with
  | nil => simp [copied]
  | cons hbIndex hbIndexes ih =>
      rw [List.foldlM_cons] at isFinal
      rcases except_bind_eq_ok.mp isFinal with ⟨middle, isMiddle, afterMiddle⟩
      rw [copied_cons]
      cases isRange : ranges hbIndex with
      | none =>
          rw [copyBucket, isRange] at isMiddle
          cases isMiddle
          exact ih isCopied shared afterMiddle
      | some range =>
          rcases copyBucket_eq_ok isRange isMiddle with
            ⟨grows, keepsShared, more, ⟨copy, copyMem, sameBucket, isAll⟩, isCurrent⟩
          have nothing : state.referenced = [] := by
            by_contra isSome
            refine notOverfull (Overfull.grows ⟨copy, copyMem, range, sameBucket ▸ isRange, ?_⟩
              (copyBuckets_grows afterMiddle))
            have isPositive := List.length_pos_iff.mpr isSome
            rw [isAll]
            omega
          have isEmpty : range.2 ≤ range.1 := by
            by_contra nonempty
            rcases isCurrent (not_le.mp nonempty) with ⟨entries, isEntries, areSome⟩
            unfold currentEntries at isEntries
            split at isEntries
            case h_1 isNil => exact isCopied isNil
            case h_2 last copies isCons =>
              have atMost := shared last (by simp [isCons])
              obtain rfl := Option.some.inj isEntries
              rw [nothing] at atMost
              exact areSome (List.eq_nil_of_length_eq_zero (Nat.le_zero.mp atMost))
          have rest := ih (List.ne_nil_of_mem copyMem) (keepsShared shared) afterMiddle
          refine ⟨fun isSome => absurd nothing isSome, ?_⟩
          intro bucket bucketMem
          rcases List.mem_cons.mp bucketMem with rfl | isRest
          · exact isEmpty
          · exact rest.2 bucket isRest

end Growth

section Success

variable {manifest : Manifest}

/-- The first bucket is copied from the compacted manifest. -/
theorem copyEntries_first (start size : ℕ) (bounded : start + size ≤ manifest.entries.length) :
    (List.range size).foldlM (copyEntry (some manifest) start) ⟨[], []⟩ =
      .ok ⟨(manifest.entries.drop start).take size, []⟩ := by
  induction size with
  | zero => simp; rfl
  | succ size ih =>
      have isEntry : manifest.entries[start + size]? =
          some (manifest.entries.get ⟨start + size, bounded⟩) := by simp
      rw [List.range_succ, List.foldlM_append, ih (by omega), List.take_add_one,
        List.getElem?_drop, isEntry]
      change [size].foldlM (copyEntry (some manifest) start) _ = _
      simp only [List.foldlM_cons, List.foldlM_nil, copyEntry, currentEntries, CopyState.read,
        Option.map_some, isEntry, Option.toList_some]
      rfl

theorem copyBucket_first {hbIndex : ℕ} {range : ℕ × ℕ} (isRange : ranges hbIndex = some range)
    (bounded : range.2 ≤ manifest.entries.length) (ordered : range.1 ≤ range.2) :
    copyBucket (some manifest) ranges uuids ⟨[], []⟩ hbIndex = do
      let copy ← Manifest.of (entriesIn manifest range) none (uuids 0) none none
      return ⟨entriesIn manifest range, [⟨hbIndex, copy, none⟩]⟩ := by
  have loop : (List.range (range.2 - range.1)).foldlM (copyEntry (some manifest) range.1) ⟨[], []⟩ =
      .ok ⟨entriesIn manifest range, []⟩ := copyEntries_first range.1 _ (by omega)
  simp only [copyBucket, isRange, loop, bind, Except.bind]
  rfl

theorem mem_copied {hbIndexes : List ℕ} {bucket : ℕ × ℕ × ℕ}
    (bucketMem : bucket ∈ copied hbIndexes ranges) : ranges bucket.1 = some bucket.2 := by
  rcases List.mem_filterMap.mp bucketMem with ⟨hbIndex, _, isBucket⟩
  rcases Option.map_eq_some_iff.mp isBucket with ⟨range, isRange, rfl⟩
  exact isRange

theorem copyBuckets_eq_copied {hbIndexes : List ℕ} {state : CopyState} :
    hbIndexes.foldlM (copyBucket compactedManifest ranges uuids) state =
      (copied hbIndexes ranges).foldlM
        (fun state bucket => copyBucket compactedManifest ranges uuids state bucket.1) state := by
  induction hbIndexes generalizing state with
  | nil => rfl
  | cons hbIndex hbIndexes ih =>
      rw [List.foldlM_cons, copied_cons]
      cases isRange : ranges hbIndex with
      | none =>
          have isNext : copyBucket compactedManifest ranges uuids state hbIndex = .ok state := by
            rw [copyBucket, isRange]
          rw [isNext]
          exact ih
      | some range =>
          rw [List.foldlM_cons]
          congr 1
          funext next
          exact ih

/-- Buckets without files get manifests without entries. -/
theorem copyBuckets_empty (manifest : Manifest) (uuids : ℕ → String)
    {buckets : List (ℕ × ℕ × ℕ)} (copies : List Copy)
    (isRange : ∀ bucket ∈ buckets, ranges bucket.1 = some bucket.2)
    (isEmpty : ∀ bucket ∈ buckets, bucket.2.1 = bucket.2.2) :
    ∃ final, buckets.foldlM
        (fun state bucket => copyBucket (some manifest) ranges uuids state bucket.1) ⟨[], copies⟩ =
        .ok ⟨[], final⟩ ∧
      final.reverse.map (fun copy => (copy.hbIndex, copy.ownEntries)) =
        copies.reverse.map (fun copy => (copy.hbIndex, copy.ownEntries)) ++
          buckets.map fun bucket => (bucket.1, none) := by
  induction buckets generalizing copies with
  | nil => exact ⟨copies, rfl, by simp⟩
  | cons bucket buckets ih =>
      have noEntries : Manifest.Agree [] := by simp [Manifest.Agree]
      obtain ⟨copy, isCopy⟩ : ∃ copy,
          Manifest.of [] none (uuids copies.length) none none = .ok copy :=
        Manifest.exists_of_iff.mpr noEntries
      have isNext : copyBucket (some manifest) ranges uuids ⟨[], copies⟩ bucket.1 =
          .ok ⟨[], ⟨bucket.1, copy, none⟩ :: copies⟩ := by
        have noOffsets : bucket.2.2 - bucket.2.1 = 0 := by
          have sameEnds := isEmpty bucket List.mem_cons_self
          omega
        simp only [copyBucket, isRange bucket List.mem_cons_self, noOffsets, List.range_zero,
          List.foldlM_nil]
        rw [pure_bind]
        simp only [isCopy]
        rfl
      rcases ih (⟨bucket.1, copy, none⟩ :: copies)
        (fun other otherMem => isRange other (List.mem_cons_of_mem _ otherMem))
        (fun other otherMem => isEmpty other (List.mem_cons_of_mem _ otherMem))
        with ⟨final, isFinal, sameCopies⟩
      refine ⟨final, ?_, ?_⟩
      · rw [List.foldlM_cons, isNext]
        exact isFinal
      · rw [sameCopies]
        simp

theorem entriesIn_disjoint {left right : ℕ × ℕ} (nodup : manifest.entries.Nodup)
    (isBefore : left.2 ≤ right.1) :
    List.Disjoint (entriesIn manifest left) (entriesIn manifest right) := by
  intro entry leftMem rightMem
  have inTake : entry ∈ manifest.entries.take left.2 := by
    rw [entriesIn, ← List.drop_take] at leftMem
    exact List.mem_of_mem_drop leftMem
  exact List.disjoint_take_drop nodup isBefore inTake (List.mem_of_mem_take rightMem)

theorem entriesIn_apart (indexes : Indexes ranges manifest) (nodup : manifest.entries.Nodup)
    {left right : ℕ} (isOther : left ≠ right) {leftRange rightRange : ℕ × ℕ}
    (isLeft : ranges left = some leftRange) (isRight : ranges right = some rightRange) :
    List.Disjoint (entriesIn manifest leftRange) (entriesIn manifest rightRange) := by
  rcases indexes.apart left right leftRange rightRange isOther isLeft isRight with
    isBefore | isAfter
  · exact entriesIn_disjoint nodup isBefore
  · exact (entriesIn_disjoint nodup isAfter).symm

/-- Entries of different buckets are apart if each result has those of its range. -/
theorem copiesOnce_of_entries {hbIndexes : List ℕ} {results : List MaterializeResult}
    (indexes : Indexes ranges manifest)
    (entries : (results.map fun result => (result.taskIndex, result.delta.entries)) =
      (copied hbIndexes ranges).map fun bucket => (bucket.1, entriesIn manifest bucket.2)) :
    CopiesOnce hbIndexes ranges manifest results := by
  refine ⟨entries, ?_⟩
  have ofBucket : ∀ result ∈ results, ∃ range, ranges result.taskIndex = some range ∧
      result.delta.entries = entriesIn manifest range := by
    intro result resultMem
    have isResult := List.mem_map_of_mem
      (f := fun result : MaterializeResult => (result.taskIndex, result.delta.entries)) resultMem
    rw [entries] at isResult
    rcases List.mem_map.mp isResult with ⟨bucket, bucketMem, same⟩
    rw [Prod.mk.injEq] at same
    exact ⟨bucket.2, same.1 ▸ mem_copied bucketMem, same.2.symm⟩
  intro nodup left leftMem right rightMem isOther
  rcases ofBucket left leftMem with ⟨leftRange, isLeft, leftEntries⟩
  rcases ofBucket right rightMem with ⟨rightRange, isRight, rightEntries⟩
  rw [leftEntries, rightEntries]
  exact entriesIn_apart indexes nodup isOther isLeft isRight

end Success

/-- The condition under which the buckets are copied. -/
structure OneBucket (hbIndexes : List ℕ) (ranges : EntryRanges) (manifest : Manifest) : Prop where
  atMostOne : (copied hbIndexes ranges).length ≤ 1 ∨
    ∀ bucket ∈ copied hbIndexes ranges, bucket.2.1 = bucket.2.2
  agree : ∀ bucket ∈ copied hbIndexes ranges, Manifest.Agree (entriesIn manifest bucket.2)

def CopiesEachOnce (hbIndexes : List ℕ) (hbIndexToEntryRange : Option EntryRanges)
    (writeToPartition : Metafile) (manifest : Manifest) (uuids : ℕ → String) : Prop :=
  ∃ results, copyAllManifestFilesFromOldHashBuckets hbIndexes hbIndexToEntryRange
      writeToPartition (some manifest) uuids = .ok results ∧
    CopiesOnce hbIndexes (hbIndexToEntryRange.getD fun _ => none) manifest results

section Exact

variable {manifest : Manifest} {hbIndexes : List ℕ} {writeToPartition : Metafile}

theorem agree_of_empty {range : ℕ × ℕ} (isEmpty : range.1 = range.2) :
    Manifest.Agree (entriesIn manifest range) := by
  simp [entriesIn, isEmpty, Manifest.Agree]

/-- A run that does not overfill a manifest copies one bucket, or only empty ones. -/
theorem oneBucket_of_run (indexes : Indexes ranges manifest) {final : CopyState}
    (isFinal : hbIndexes.foldlM (copyBucket (some manifest) ranges uuids) ⟨[], []⟩ = .ok final)
    (notOverfull : ¬Overfull ranges final) : OneBucket hbIndexes ranges manifest := by
  induction hbIndexes with
  | nil => exact ⟨Or.inl (by simp [copied]), by simp [copied]⟩
  | cons hbIndex hbIndexes ih =>
      rw [List.foldlM_cons] at isFinal
      cases isRange : ranges hbIndex with
      | none =>
          rw [copyBucket, isRange] at isFinal
          rcases ih isFinal with ⟨atMostOne, agree⟩
          constructor <;> rw [copied_cons, isRange] <;> assumption
      | some range =>
          have ordered := indexes.ordered hbIndex range isRange
          have bounded := indexes.bounded hbIndex range isRange
          rw [copyBucket_first isRange bounded ordered] at isFinal
          rcases except_bind_eq_ok.mp isFinal with ⟨middle, isMiddle, afterMiddle⟩
          rcases except_bind_eq_ok.mp isMiddle with ⟨copy, isCopy, isResult⟩
          cases isResult
          have shared : Shared ⟨entriesIn manifest range, [⟨hbIndex, copy, none⟩]⟩ := by
            intro other otherMem
            rw [List.mem_singleton.mp otherMem]
            exact le_rfl
          have rest := rest_empty (by simp) shared afterMiddle notOverfull
          have restEmpty : ∀ bucket ∈ copied hbIndexes ranges, bucket.2.1 = bucket.2.2 := by
            intro bucket bucketMem
            exact le_antisymm (indexes.ordered bucket.1 bucket.2 (mem_copied bucketMem))
              (rest.2 bucket bucketMem)
          refine ⟨?_, ?_⟩
          · simp only [copied_cons, isRange]
            by_cases isEmpty : range.1 = range.2
            · exact Or.inr (List.forall_mem_cons.mpr ⟨isEmpty, restEmpty⟩)
            · have hasFiles : entriesIn manifest range ≠ [] := by
                apply List.ne_nil_of_length_pos
                rw [entriesIn, List.length_take, List.length_drop]
                omega
              exact Or.inl (by simp [rest.1 hasFiles])
          · simp only [copied_cons, isRange]
            intro bucket bucketMem
            rcases List.mem_cons.mp bucketMem with rfl | isRest
            · exact Manifest.exists_of_iff.mp ⟨copy, isCopy⟩
            · exact agree_of_empty (restEmpty bucket isRest)

theorem not_overfull {final : CopyState}
    (copiesOnce : CopiesOnce hbIndexes ranges manifest
      (final.copies.reverse.map (copyResult writeToPartition final))) :
    ¬Overfull ranges final := by
  rintro ⟨copy, copyMem, range, isRange, isMore⟩
  have isResult : (copy.hbIndex, final.entriesOf copy) ∈
      (copied hbIndexes ranges).map fun bucket => (bucket.1, entriesIn manifest bucket.2) := by
    rw [← copiesOnce.entries, List.map_map]
    exact List.mem_map.mpr ⟨copy, List.mem_reverse.mpr copyMem, rfl⟩
  rcases List.mem_map.mp isResult with ⟨bucket, bucketMem, same⟩
  rw [Prod.mk.injEq] at same
  have isBucket := mem_copied bucketMem
  rw [same.1, isRange] at isBucket
  rw [← same.2, ← Option.some.inj isBucket, entriesIn, List.length_take] at isMore
  omega

/-- The loop does what it should when the condition holds. -/
theorem run_of_oneBucket (uuids : ℕ → String) (indexes : Indexes ranges manifest)
    (oneBucket : OneBucket hbIndexes ranges manifest) :
    ∃ final, hbIndexes.foldlM (copyBucket (some manifest) ranges uuids) ⟨[], []⟩ = .ok final ∧
      (final.copies.reverse.map fun copy => (copy.hbIndex, final.entriesOf copy)) =
        (copied hbIndexes ranges).map fun bucket => (bucket.1, entriesIn manifest bucket.2) := by
  have isRange : ∀ bucket ∈ copied hbIndexes ranges, ranges bucket.1 = some bucket.2 :=
    fun bucket bucketMem => mem_copied bucketMem
  have agree := oneBucket.agree
  have atMostOne := oneBucket.atMostOne
  rw [copyBuckets_eq_copied]
  generalize copied hbIndexes ranges = buckets at *
  rcases atMostOne with isShort | areEmpty
  · match buckets with
    | [] => exact ⟨_, rfl, rfl⟩
    | [bucket] =>
        have isBucket := isRange bucket List.mem_cons_self
        obtain ⟨copy, isCopy⟩ : ∃ copy,
            Manifest.of (entriesIn manifest bucket.2) none (uuids 0) none none = .ok copy :=
          Manifest.exists_of_iff.mpr (agree bucket List.mem_cons_self)
        refine ⟨⟨entriesIn manifest bucket.2, [⟨bucket.1, copy, none⟩]⟩, ?_, rfl⟩
        rw [List.foldlM_cons, copyBucket_first isBucket (indexes.bounded _ _ isBucket)
          (indexes.ordered _ _ isBucket), isCopy]
        rfl
    | _ :: _ :: _ => simp at isShort
  · rcases copyBuckets_empty manifest uuids [] isRange areEmpty with
      ⟨copies, isFinal, sameCopies⟩
    refine ⟨_, isFinal, ?_⟩
    calc copies.reverse.map (fun copy => (copy.hbIndex, copy.ownEntries.getD []))
        = (copies.reverse.map fun copy => (copy.hbIndex, copy.ownEntries)).map
            fun copy => (copy.1, copy.2.getD []) := by simp
      _ = buckets.map fun bucket => (bucket.1, []) := by
          rw [sameCopies]
          simp
      _ = buckets.map fun bucket => (bucket.1, entriesIn manifest bucket.2) := by
          apply List.map_congr_left
          intro bucket bucketMem
          simp [entriesIn, areEmpty bucket bucketMem]

end Exact

/-- The buckets are copied exactly if there is only one, or none of them has a file. -/
theorem copiesEachOnce_iff (hbIndexes : List ℕ) (hbIndexToEntryRange : Option EntryRanges)
    (writeToPartition : Metafile) (manifest : Manifest) (uuids : ℕ → String)
    (indexes : Indexes (hbIndexToEntryRange.getD fun _ => none) manifest) :
    CopiesEachOnce hbIndexes hbIndexToEntryRange writeToPartition manifest uuids ↔
      OneBucket hbIndexes (hbIndexToEntryRange.getD fun _ => none) manifest := by
  cases hbIndexToEntryRange with
  | none =>
      have noBuckets : copied hbIndexes (fun _ => none) = [] := by simp [copied]
      simp only [Option.getD_none] at indexes ⊢
      refine ⟨fun _ => ⟨Or.inl (by simp [noBuckets]), by simp [noBuckets]⟩, fun _ => ?_⟩
      exact ⟨[], rfl, copiesOnce_of_entries indexes (by simp [noBuckets])⟩
  | some ranges =>
      simp only [Option.getD_some] at indexes ⊢
      constructor
      · rintro ⟨results, isResults, copiesOnce⟩
        rcases except_bind_eq_ok.mp isResults with ⟨final, isFinal, areResults⟩
        cases areResults
        exact oneBucket_of_run indexes isFinal (not_overfull copiesOnce)
      · intro oneBucket
        rcases run_of_oneBucket uuids indexes oneBucket with ⟨final, isFinal, entries⟩
        refine ⟨_, except_bind_eq_ok.mpr ⟨final, isFinal, rfl⟩,
          copiesOnce_of_entries indexes ?_⟩
        rw [List.map_map]
        exact entries

section Examples

/-- A compacted table with a file for each of two buckets. -/
def twoFiles : Manifest where
  id := "0"
  metadata := (parquetEntry "0").metadata
  entries := [parquetEntry "0", parquetEntry "1"]
  author := none

def twoRanges : EntryRanges
  | 0 => some (0, 1)
  | 1 => some (1, 2)
  | _ => none

def compactedPartition : Metafile :=
  { locator := ⟨[.streamName (some "s") (some "deltacat")], .partitionName none (some "p")⟩ }

theorem twoRanges_indexes : Indexes twoRanges twoFiles := by
  have cases : ∀ hbIndex range, twoRanges hbIndex = some range → range = (hbIndex, hbIndex + 1) ∧
      hbIndex < 2 := by
    intro hbIndex range isRange
    match hbIndex with
    | 0 | 1 => simpa [twoRanges] using isRange.symm
    | _ + 2 => simp [twoRanges] at isRange
  constructor
  · intro hbIndex range isRange
    rw [(cases hbIndex range isRange).1]
    exact Nat.le_succ hbIndex
  · intro hbIndex range isRange
    rw [(cases hbIndex range isRange).1]
    exact (cases hbIndex range isRange).2
  · intro left right leftRange rightRange isOther isLeft isRight
    rw [(cases left leftRange isLeft).1, (cases right rightRange isRight).1]
    rcases lt_or_gt_of_ne isOther with isLess | isMore
    · exact Or.inl isLess
    · exact Or.inr isMore

/-- One of the buckets is copied. -/
theorem copiesEachOnce_one :
    CopiesEachOnce [1] (some twoRanges) compactedPartition twoFiles toString := by
  apply (copiesEachOnce_iff [1] (some twoRanges) compactedPartition twoFiles toString
    twoRanges_indexes).mpr
  refine ⟨Or.inl (by decide), ?_⟩
  intro bucket bucketMem first isFirst entry entryMem
  obtain rfl : bucket = (1, 1, 2) := by simpa [copied, twoRanges] using bucketMem
  obtain rfl : parquetEntry "1" = first := by simpa [entriesIn, twoFiles] using isFirst
  exact ⟨fun isGiven => absurd rfl isGiven, fun isGiven => absurd rfl isGiven⟩

/-- Both buckets are copied: the range of the second is not one of the copy of the first. -/
theorem not_copiesEachOnce :
    Indexes twoRanges twoFiles ∧
      ¬CopiesEachOnce [0, 1] (some twoRanges) compactedPartition twoFiles toString := by
  refine ⟨twoRanges_indexes, ?_⟩
  rintro ⟨results, isResults, _⟩
  have fails : (copyAllManifestFilesFromOldHashBuckets [0, 1] (some twoRanges) compactedPartition
      (some twoFiles) toString).toOption.isNone := by decide +kernel
  rw [isResults] at fails
  cases fails

end Examples

end Deltacat.Compute.CompactorV2
