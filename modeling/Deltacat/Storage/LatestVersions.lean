import Deltacat.Library.Run
import Deltacat.Storage.TableVersionSpec

/-!
# The latest versions of a table

A table points to the version that was created last and to its latest active
version. The first pointer is right whenever the versions are given in their
canonical form. The second one is wrong after a version that is not active was
created while another one is active, as `create_table_version` then clears the
pointer, and after the latest active version was taken out of service, as
`update_table_version` leaves it in place (`not_latestVersions_run`). Over all runs
without such calls it is right (`latestVersions_run`).
-/

namespace Deltacat.Storage

open Deltacat.Library MetafileRevisionInfo TransactionM TransactionOperation

section Pointers

variable (characters : CharacterClasses)

/-- A version whose number is the greatest among some versions. -/
def IsLatest (versions : String → Prop) (tableVersion : String) : Prop :=
  versions tableVersion ∧ ∀ other, versions other → other ≠ tableVersion →
    versionNumber characters other < versionNumber characters tableVersion

/-- A pointer names the latest one of some versions, and nothing if there is none. -/
def PointsToLatest (versions : String → Prop) : Option String → Prop
  | none => ∀ tableVersion, ¬versions tableVersion
  | some tableVersion => IsLatest characters versions tableVersion

variable {characters} {versions others : String → Prop}

theorem PointsToLatest.congr {pointer : Option String}
    (points : PointsToLatest characters versions pointer)
    (same : ∀ tableVersion, others tableVersion ↔ versions tableVersion) :
    PointsToLatest characters others pointer := by
  obtain rfl : others = versions := funext fun tableVersion => propext (same tableVersion)
  exact points

/-- A version that comes after all others is the latest one. -/
theorem isLatest_insert {tableVersion : String}
    (isNewer : ∀ other, versions other → other ≠ tableVersion →
      versionNumber characters other < versionNumber characters tableVersion)
    (isGrown : ∀ other, others other ↔ other = tableVersion ∨ versions other) :
    IsLatest characters others tableVersion := by
  refine ⟨(isGrown tableVersion).mpr (Or.inl rfl), ?_⟩
  intro other isOther isDifferent
  rcases (isGrown other).mp isOther with same | isOld
  · exact absurd same isDifferent
  · exact isNewer other isOld isDifferent

/-- What `update_table_version` compares. -/
theorem becomesLatestActive_eq_ok {stored : Metafile} {given : String} {becomes : Bool}
    (isDecided : becomesLatestActive characters stored given = .ok becomes) :
    (nonEmpty stored.latestActiveTableVersion = none ∧ becomes = true) ∨
      ∃ pointer, stored.latestActiveTableVersion = some pointer ∧
        (becomes = true ↔ versionNumber characters pointer < versionNumber characters given) := by
  unfold becomesLatestActive at isDecided
  cases isPointer : nonEmpty stored.latestActiveTableVersion with
  | none =>
      rw [isPointer] at isDecided
      rcases except_bind_eq_ok.mp isDecided with ⟨oldNumber, isOld, afterOld⟩
      rcases except_bind_eq_ok.mp afterOld with ⟨⟨stem, number⟩, _, isResult⟩
      cases isOld
      cases isResult
      exact Or.inl ⟨rfl, rfl⟩
  | some pointer =>
      rw [isPointer] at isDecided
      rcases except_bind_eq_ok.mp isDecided with ⟨oldNumber, isOld, afterOld⟩
      rcases except_bind_eq_ok.mp afterOld with ⟨⟨stem, number⟩, isParsed, isResult⟩
      cases isPointed : parseTableVersion characters pointer with
      | error error =>
          rw [isPointed] at isOld
          cases isOld
      | ok parsed =>
          rw [isPointed] at isOld
          cases isOld
          cases isResult
          rcases parsed with ⟨oldStem, oldNumber⟩
          refine Or.inr ⟨pointer, (nonEmpty_eq_some.mp isPointer).1, ?_⟩
          rw [versionNumber_of_parse isPointed, versionNumber_of_parse isParsed]
          simp

end Pointers

/-- A call of either function, with the identifier that was drawn for a new stream. -/
inductive TableVersionCall
  | create (request : TableVersionCreation) (streamId : String)
  | update (request : TableVersionUpdate)

namespace TableVersionCall

/-- The call names the table. -/
def OnTable (table : TablePath) : TableVersionCall → Prop
  | create request _ =>
      request.namespaceName = table.namespaceName ∧ request.tableName = table.tableName
  | update request =>
      request.namespaceName = table.namespaceName ∧ request.tableName = table.tableName

/-- `tableId` is the identifier that is drawn when the table is created. -/
def perform (characters : CharacterClasses) (readerTypes : String → Except Error (List String))
    (tableId : String) : TableVersionCall → TransactionM Unit
  | create request streamId => do
      let _ ← createTableVersion characters request tableId streamId
  | update request => do
      let _ ← updateTableVersion characters readerTypes request

end TableVersionCall

/-- A call, the transaction in which it is made, and the time of the seal. -/
structure TableVersionEvent where
  txnId : TransactionId
  now : Option ℕ
  call : TableVersionCall

/-- The versions of the table. -/
def IsVersion (table : TablePath) (store : LiveStore) (tableVersion : String) : Prop :=
  ∃ stored, store (table.versionDir tableVersion) = some (.metafile stored)

/-- The versions of the table whose lifecycle state is `ACTIVE`. -/
def IsActive (table : TablePath) (store : LiveStore) (tableVersion : String) : Prop :=
  ∃ stored, store (table.versionDir tableVersion) = some (.metafile stored) ∧
    stored.lifecycleState = some .active

section Run

variable (characters : CharacterClasses) (readerTypes : String → Except Error (List String))
  (table : TablePath)

/-- A successful call on the table, in a transaction of its own. -/
def TableVersionStep (catalog : Catalog) (event : TableVersionEvent) (next : Catalog) : Prop :=
  event.call.OnTable table ∧ catalog.Completes event.txnId event.now
    (event.call.perform characters readerTypes table.tableId) () next

/-- A catalog with the namespace of the table and without the table. -/
structure WithoutTable (catalog : Catalog) : Prop where
  numbered : catalog.Numbered
  inNamespace : table.InNamespace catalog.live
  noMapping : catalog.live table.mapping = none
  noTable : catalog.live table.dir = none
  noVersion : ∀ tableVersion, catalog.live (table.versionDir tableVersion) = none
  noStream : ∀ tableVersion id,
    catalog.live ⟨table.streamIds tableVersion, .metafile id⟩ = none

/--
The table points to its greatest-numbered version, and to the greatest-numbered
one that is active if there is one.
-/
def LatestVersions (catalog : Catalog) : Prop :=
  ∀ stored, catalog.live table.dir = some (.metafile stored) →
    (∀ tableVersion, stored.latestActiveTableVersion = some tableVersion ↔
      IsLatest characters (IsActive table catalog.live) tableVersion) ∧
    (stored.latestActiveTableVersion = none ↔
      ∀ tableVersion, ¬IsActive table catalog.live tableVersion) ∧
    ∃ tableVersion, stored.latestTableVersion = some tableVersion ∧
      IsLatest characters (IsVersion table catalog.live) tableVersion

/--
A version that is not active is created only while no version is active, the
latest active version stays active, and the versions that pointers are set to are
given in their canonical form.
-/
def KeepsPointers (catalog : Catalog) (event : TableVersionEvent) : Prop :=
  match event.call with
  | .create request _ =>
      Canonical characters request.tableVersion ∧
        (request.lifecycleState = some .active ∨
          ∀ tableVersion, ¬IsActive table catalog.live tableVersion)
  | .update request =>
      (request.lifecycleState = some .active →
        restateTableVersion characters request.tableVersion ≠ .ok request.tableVersion →
        ∃ tableVersion, IsActive table catalog.live tableVersion ∧
          versionNumber characters request.tableVersion ≤
            versionNumber characters tableVersion) ∧
      (request.lifecycleState ≠ none → request.lifecycleState ≠ some .active →
        ∀ tableVersion, restateTableVersion characters request.tableVersion = .ok tableVersion →
          ¬IsLatest characters (IsActive table catalog.live) tableVersion)

/-- The pointers of the table, as it is stored. -/
structure Pointers (store : LiveStore) (stored : Metafile) : Prop where
  active : PointsToLatest characters (IsActive table store) stored.latestActiveTableVersion
  latest : ∃ tableVersion, stored.latestTableVersion = some tableVersion ∧
    IsLatest characters (IsVersion table store) tableVersion

/-- The invariant of a run. -/
structure TableInvariant (catalog : Catalog) : Prop where
  numbered : catalog.Numbered
  inNamespace : table.InNamespace catalog.live
  streams : StreamsRecorded table catalog.live
  versions : VersionsRecorded table catalog.live
  distinct : ∀ left right, IsVersion table catalog.live left →
    IsVersion table catalog.live right →
    versionNumber characters left = versionNumber characters right → left = right
  holds : ∃ prevTable, table.Holds catalog.live prevTable ∧
    match prevTable with
    | none => catalog.live table.dir = none ∧
        ∀ tableVersion, catalog.live (table.versionDir tableVersion) = none
    | some stored => Pointers characters table catalog.live stored

variable {characters readerTypes table} {catalog next : Catalog}

theorem TableInvariant.start (starts : WithoutTable table catalog) :
    TableInvariant characters table catalog where
  numbered := starts.numbered
  inNamespace := starts.inNamespace
  streams := by
    intro tableVersion id stored isStored
    rw [starts.noStream] at isStored
    cases isStored
  versions := by
    intro tableVersion stored isStored
    rw [starts.noVersion] at isStored
    cases isStored
  distinct := by
    rintro left right ⟨stored, isStored⟩
    rw [starts.noVersion] at isStored
    cases isStored
  holds := ⟨none, starts.noMapping, starts.noTable, starts.noVersion⟩

theorem TableInvariant.latestVersions (invariant : TableInvariant characters table catalog) :
    LatestVersions characters table catalog := by
  intro stored isStored
  rcases invariant.holds with ⟨prevTable, holds, pointers⟩
  cases prevTable with
  | none =>
      rw [pointers.1] at isStored
      cases isStored
  | some sameStored =>
      obtain rfl : stored = sameStored := by
        have same := isStored.symm.trans holds.2.1
        cases same
        rfl
      have active := pointers.active
      refine ⟨?_, ?_, pointers.latest⟩
      · intro tableVersion
        cases isPointer : stored.latestActiveTableVersion with
        | none =>
            rw [isPointer] at active
            constructor
            · rintro ⟨⟩
            · rintro ⟨isActive, _⟩
              exact absurd isActive (active tableVersion)
        | some pointer =>
            rw [isPointer] at active
            constructor
            · rintro ⟨⟩
              exact active
            · intro isLatest
              by_contra isOther
              have isDifferent : tableVersion ≠ pointer := fun same => isOther (by rw [same])
              have less := active.2 tableVersion isLatest.1 isDifferent
              have greater := isLatest.2 pointer active.1 isDifferent.symm
              omega
      · cases isPointer : stored.latestActiveTableVersion with
        | none =>
            rw [isPointer] at active
            exact ⟨fun _ => active, fun _ => rfl⟩
        | some pointer =>
            rw [isPointer] at active
            constructor
            · rintro ⟨⟩
            · intro noneActive
              exact absurd active.1 (noneActive pointer)

/-- The versions after one of them was written. -/
theorem isVersion_changed {store final : LiveStore} {tableVersion : String} {new : Metafile}
    (changes : Changes table store final tableVersion)
    (isNew : final (table.versionDir tableVersion) = some (.metafile new)) (other : String) :
    IsVersion table final other ↔ other = tableVersion ∨ IsVersion table store other := by
  by_cases same : other = tableVersion
  · subst same
    exact ⟨fun _ => Or.inl rfl, fun _ => ⟨new, isNew⟩⟩
  · unfold IsVersion
    rw [changes.others other same]
    simp [same]

/-- The active versions after a version was written. -/
theorem isActive_changed {store final : LiveStore} {tableVersion : String} {new : Metafile}
    (changes : Changes table store final tableVersion)
    (isNew : final (table.versionDir tableVersion) = some (.metafile new)) (other : String) :
    IsActive table final other ↔ (other = tableVersion ∧ new.lifecycleState = some .active) ∨
      (other ≠ tableVersion ∧ IsActive table store other) := by
  by_cases same : other = tableVersion
  · subst same
    unfold IsActive
    rw [isNew]
    simp
  · unfold IsActive
    rw [changes.others other same]
    simp [same]

theorem IsActive.isVersion {store : LiveStore} {tableVersion : String}
    (isActive : IsActive table store tableVersion) : IsVersion table store tableVersion := by
  rcases isActive with ⟨stored, isStored, _⟩
  exact ⟨stored, isStored⟩

/-- What a call needs to have kept, besides the pointers. -/
theorem TableInvariant.recorded {store final : LiveStore} {tableVersion : String} {new : Metafile}
    (versions : VersionsRecorded table store) (changes : Changes table store final tableVersion)
    (isNew : final (table.versionDir tableVersion) = some (.metafile new))
    (ancestors : new.ancestorIds = table.ids)
    (isName : new.locator.name = .tableVersionName tableVersion) (notEmpty : tableVersion ≠ "") :
    VersionsRecorded table final := by
  intro other stored isStored
  by_cases same : other = tableVersion
  · subst same
    rw [isNew] at isStored
    cases isStored
    exact ⟨ancestors, isName, notEmpty⟩
  · rw [changes.others other same] at isStored
    exact versions other stored isStored

/-- The numbers stay distinct when a version is created after all others. -/
theorem distinct_insert {versions others : String → Prop} {tableVersion : String}
    (distinct : ∀ left right, versions left → versions right →
      versionNumber characters left = versionNumber characters right → left = right)
    (isNewer : ∀ other, versions other →
      versionNumber characters other < versionNumber characters tableVersion)
    (isGrown : ∀ other, others other ↔ other = tableVersion ∨ versions other) :
    ∀ left right, others left → others right →
      versionNumber characters left = versionNumber characters right → left = right := by
  intro left right isLeft isRight sameNumber
  rcases (isGrown left).mp isLeft with rfl | leftOld
  · rcases (isGrown right).mp isRight with rfl | rightOld
    · rfl
    · have less := isNewer right rightOld
      omega
  · rcases (isGrown right).mp isRight with rfl | rightOld
    · have less := isNewer left leftOld
      omega
    · exact distinct left right leftOld rightOld sameNumber

/-- The version that a call creates comes after all others, and is stored as it was given. -/
theorem TableInvariant.isNewer (invariant : TableInvariant characters table catalog)
    {prevTable : Option Metafile} (holds : table.Holds catalog.live prevTable)
    {final : LiveStore} {request : TableVersionCreation} {given tableVersion : String}
    {parents : List LocatorName}
    (creates : Creates characters table catalog.live final prevTable request given tableVersion
      parents) :
    (∀ other, IsVersion table catalog.live other →
      versionNumber characters other < versionNumber characters tableVersion) ∧
      (Canonical characters request.tableVersion → tableVersion = given) := by
  rcases invariant.holds with ⟨sameTable, sameHolds, pointers⟩
  cases prevTable with
  | none =>
      have isFree : catalog.live table.mapping = none := holds
      cases sameTable with
      | some stored =>
          rw [sameHolds.1] at isFree
          cases isFree
      | none =>
          refine ⟨?_, fun canonical => newTableVersion_none creates.isNew canonical
            creates.isRestated⟩
          rintro other ⟨stored, isStored⟩
          rw [pointers.2] at isStored
          cases isStored
  | some stored =>
      cases sameTable with
      | none =>
          have isFree : catalog.live table.mapping = none := sameHolds
          rw [holds.1] at isFree
          cases isFree
      | some sameStored =>
          obtain rfl : stored = sameStored := by
            have same := holds.2.1.symm.trans sameHolds.2.1
            cases same
            rfl
          rcases pointers.latest with ⟨last, isLast, isLatest⟩
          have sameLast : (stored.withParents parents).latestTableVersion = some last := isLast
          rcases newTableVersion_some sameLast creates.isNew creates.isRestated with
            ⟨isNext, isCanonical⟩
          refine ⟨?_, isCanonical⟩
          intro other isVersion
          by_cases same : other = last
          · rw [same, isNext]
            exact Nat.lt_succ_self _
          · have less := isLatest.2 other isVersion same
            omega

/-- A version is created, and it or none is active. -/
theorem TableInvariant.create (invariant : TableInvariant characters table catalog)
    (numbered : next.Numbered) {prevTable : Option Metafile}
    (holds : table.Holds catalog.live prevTable) {request : TableVersionCreation}
    {given tableVersion : String} {parents : List LocatorName}
    (creates : Creates characters table catalog.live next.live prevTable request given
      tableVersion parents)
    (canonical : Canonical characters request.tableVersion)
    (isOnly : request.lifecycleState = some .active ∨
      ∀ tableVersion, ¬IsActive table catalog.live tableVersion) :
    TableInvariant characters table next := by
  rcases invariant.isNewer holds creates with ⟨isNewer, isGiven⟩
  obtain rfl := isGiven canonical
  rcases writtenMetafile_eq table.ids
    (request.newVersion (prevTable.map (·.withParents parents)) tableVersion) with
    ⟨versionParents, isWritten⟩
  rcases writtenMetafile_eq [table.namespaceId] (request.newTable table.tableId
    (prevTable.map (·.withParents parents)) tableVersion) with ⟨tableParents, isTableWritten⟩
  have isVersion := creates.isVersion
  have isTable := creates.isTable
  rw [isWritten] at isVersion
  rw [isTableWritten] at isTable
  have notEmpty := (versionNumber_restate creates.isRestated).2
  have grown := isVersion_changed creates.changes isVersion
  have active := isActive_changed creates.changes isVersion
  refine ⟨numbered, creates.changes.inNamespace invariant.inNamespace,
    creates.changes.streams invariant.streams,
    TableInvariant.recorded invariant.versions creates.changes isVersion rfl rfl notEmpty,
    distinct_insert invariant.distinct isNewer grown, ⟨_, isTable, ?_, ?_⟩⟩
  · by_cases isActivated : request.lifecycleState = some .active
    · have isPointer : (if request.lifecycleState = some .active then some tableVersion
          else none) = some tableVersion := if_pos isActivated
      change PointsToLatest characters (IsActive table next.live)
        (if request.lifecycleState = some .active then some tableVersion else none)
      rw [isPointer]
      have activeNewer : ∀ other, IsActive table catalog.live other → other ≠ tableVersion →
          versionNumber characters other < versionNumber characters tableVersion :=
        fun other isActive _ => isNewer other isActive.isVersion
      apply isLatest_insert activeNewer
      intro other
      rw [active other]
      by_cases same : other = tableVersion
      · exact ⟨fun _ => Or.inl same, fun _ => Or.inl ⟨same, isActivated⟩⟩
      · simp [same]
    · change PointsToLatest characters (IsActive table next.live)
        (if request.lifecycleState = some .active then some tableVersion else none)
      rw [if_neg isActivated]
      intro other isActive
      rcases (active other).mp isActive with ⟨_, isNow⟩ | ⟨_, wasActive⟩
      · exact isActivated isNow
      · exact (isOnly.resolve_left isActivated) other wasActive
  · exact ⟨tableVersion, rfl, isLatest_insert (fun other isOld _ => isNewer other isOld) grown⟩

/-- The pointer after an activated version was compared with it. -/
theorem pointer_activated (invariant : TableInvariant characters table catalog)
    {final : LiveStore} {stored newTable old new : Metafile} {request : TableVersionUpdate}
    {tableVersion : String}
    (active : PointsToLatest characters (IsActive table catalog.live)
      stored.latestActiveTableVersion)
    (updates : Updates characters table catalog.live final stored newTable old new request
      tableVersion)
    (canonical : request.lifecycleState = some .active →
      restateTableVersion characters request.tableVersion ≠ .ok request.tableVersion →
      ∃ other, IsActive table catalog.live other ∧
        versionNumber characters request.tableVersion ≤ versionNumber characters other)
    (isActivated : request.lifecycleState = some .active)
    (wasOther : old.lifecycleState ≠ some .active)
    (grown : ∀ other, IsActive table final other ↔
      other = tableVersion ∨ IsActive table catalog.live other) :
    PointsToLatest characters (IsActive table final) newTable.latestActiveTableVersion := by
  have sameNumber := (versionNumber_restate updates.isRestated).1
  rcases updates.decided isActivated wasOther with ⟨becomes, isDecided⟩
  -- A version that comes after the active ones was given in its canonical form.
  have moves : becomes = true → (∀ other, IsActive table catalog.live other →
      versionNumber characters other < versionNumber characters tableVersion) →
      PointsToLatest characters (IsActive table final) newTable.latestActiveTableVersion := by
    rintro rfl isNewer
    have isCanonical : restateTableVersion characters request.tableVersion =
        .ok request.tableVersion := by
      by_contra notCanonical
      rcases canonical isActivated notCanonical with ⟨other, isActive, atMost⟩
      have less := isNewer other isActive
      omega
    obtain rfl : tableVersion = request.tableVersion :=
      Except.ok.inj (updates.isRestated.symm.trans isCanonical)
    rw [updates.moved ⟨isActivated, wasOther, isDecided⟩]
    exact isLatest_insert (fun other isActive _ => isNewer other isActive) grown
  rcases becomesLatestActive_eq_ok isDecided with ⟨isEmpty, isTrue⟩ | ⟨pointer, isPointer, compares⟩
  · apply moves isTrue
    intro other isActive
    cases isPointer : stored.latestActiveTableVersion with
    | none =>
        rw [isPointer] at active
        exact absurd isActive (active other)
    | some pointer =>
        -- The empty string is no version.
        rw [isPointer] at active isEmpty
        rcases active.1 with ⟨version, isVersion, _⟩
        rw [nonEmpty_some (invariant.versions pointer version isVersion).2.2] at isEmpty
        cases isEmpty
  · rw [isPointer] at active
    by_cases isLess : versionNumber characters pointer < versionNumber characters tableVersion
    · apply moves (compares.mpr (by omega))
      intro other isActive
      by_cases same : other = pointer
      · rw [same]
        exact isLess
      · exact (active.2 other isActive same).trans isLess
    · have notMoved : ¬MovesPointer characters request stored old := by
        rintro ⟨_, _, isTrue⟩
        have sameBecomes := Except.ok.inj (isDecided.symm.trans isTrue)
        have less := compares.mp sameBecomes
        omega
      rw [updates.kept notMoved, isPointer]
      refine ⟨(grown pointer).mpr (Or.inr active.1), ?_⟩
      intro other isActive isOther
      rcases (grown other).mp isActive with rfl | wasActive
      · have atMost := not_lt.mp isLess
        apply lt_of_le_of_ne atMost
        intro sameNumbers
        exact isOther (invariant.distinct other pointer ⟨old, updates.isOld⟩ active.1.isVersion
          sameNumbers)
      · exact active.2 other wasActive isOther

/-- The pointer to the latest active version after an update. -/
theorem pointer_updated (invariant : TableInvariant characters table catalog)
    {final : LiveStore} {stored newTable old new : Metafile} {request : TableVersionUpdate}
    {tableVersion : String}
    (active : PointsToLatest characters (IsActive table catalog.live)
      stored.latestActiveTableVersion)
    (updates : Updates characters table catalog.live final stored newTable old new request
      tableVersion)
    (canonical : request.lifecycleState = some .active →
      restateTableVersion characters request.tableVersion ≠ .ok request.tableVersion →
      ∃ other, IsActive table catalog.live other ∧
        versionNumber characters request.tableVersion ≤ versionNumber characters other)
    (staysActive : request.lifecycleState ≠ none → request.lifecycleState ≠ some .active →
      ∀ tableVersion, restateTableVersion characters request.tableVersion = .ok tableVersion →
        ¬IsLatest characters (IsActive table catalog.live) tableVersion) :
    PointsToLatest characters (IsActive table final) newTable.latestActiveTableVersion := by
  have isChanged := isActive_changed updates.changes updates.isNew
  have wasActive : IsActive table catalog.live tableVersion ↔
      old.lifecycleState = some .active := by
    unfold IsActive
    rw [updates.isOld]
    simp
  have isState := updates.state
  by_cases isNow : new.lifecycleState = some .active
  · by_cases wasBefore : old.lifecycleState = some .active
    · rw [updates.kept fun moved => moved.2.1 wasBefore]
      apply active.congr
      intro other
      rw [isChanged other]
      by_cases same : other = tableVersion
      · subst same
        simp [isNow, wasActive, wasBefore]
      · simp [same]
    · have isActivated : request.lifecycleState = some .active := by
        cases isGiven : request.lifecycleState with
        | none =>
            rw [isGiven] at isState
            exact absurd (isState.symm.trans isNow) wasBefore
        | some state =>
            rw [isGiven] at isState
            exact isState.symm.trans isNow
      apply pointer_activated invariant active updates canonical isActivated wasBefore
      intro other
      rw [isChanged other]
      by_cases same : other = tableVersion
      · simp [same, isNow]
      · simp [same]
  · by_cases wasBefore : old.lifecycleState = some .active
    · -- The version was active and is not the latest active one, to which the pointer leads.
      have isDemoted : request.lifecycleState ≠ none ∧ request.lifecycleState ≠ some .active := by
        cases isGiven : request.lifecycleState with
        | none =>
            rw [isGiven] at isState
            exact absurd (isState.trans wasBefore) isNow
        | some state =>
            rw [isGiven] at isState
            refine ⟨by simp, ?_⟩
            intro isActive
            exact isNow (isState.trans isActive)
      rw [updates.kept fun moved => isDemoted.2 moved.1]
      cases isPointer : stored.latestActiveTableVersion with
      | none =>
          rw [isPointer] at active
          exact absurd (wasActive.mpr wasBefore) (active tableVersion)
      | some pointer =>
          rw [isPointer] at active
          have isOther : pointer ≠ tableVersion := by
            rintro rfl
            exact staysActive isDemoted.1 isDemoted.2 pointer updates.isRestated active
          refine ⟨(isChanged pointer).mpr (Or.inr ⟨isOther, active.1⟩), ?_⟩
          intro other isActive isDifferent
          rcases (isChanged other).mp isActive with ⟨_, isStill⟩ | ⟨_, wasAlso⟩
          · exact absurd isStill isNow
          · exact active.2 other wasAlso isDifferent
    · rw [updates.kept]
      · apply active.congr
        intro other
        rw [isChanged other]
        by_cases same : other = tableVersion
        · subst same
          simp [isNow, wasActive, wasBefore]
        · simp [same]
      · rintro ⟨isActivated, _⟩
        rw [isActivated] at isState
        exact isNow isState

/-- A version is updated, and the latest active version stays active. -/
theorem TableInvariant.update (invariant : TableInvariant characters table catalog)
    (numbered : next.Numbered) {stored newTable old new : Metafile}
    (holds : table.Holds catalog.live (some stored)) {request : TableVersionUpdate}
    {tableVersion : String}
    (updates : Updates characters table catalog.live next.live stored newTable old new request
      tableVersion)
    (canonical : request.lifecycleState = some .active →
      restateTableVersion characters request.tableVersion ≠ .ok request.tableVersion →
      ∃ other, IsActive table catalog.live other ∧
        versionNumber characters request.tableVersion ≤ versionNumber characters other)
    (staysActive : request.lifecycleState ≠ none → request.lifecycleState ≠ some .active →
      ∀ tableVersion, restateTableVersion characters request.tableVersion = .ok tableVersion →
        ¬IsLatest characters (IsActive table catalog.live) tableVersion) :
    TableInvariant characters table next := by
  rcases invariant.holds with ⟨sameTable, sameHolds, pointers⟩
  cases sameTable with
  | none =>
      have isFree : catalog.live table.mapping = none := sameHolds
      rw [holds.1] at isFree
      cases isFree
  | some sameStored =>
      obtain rfl : stored = sameStored := by
        have same := holds.2.1.symm.trans sameHolds.2.1
        cases same
        rfl
      have isVersion : IsVersion table catalog.live tableVersion := ⟨old, updates.isOld⟩
      have notEmpty := (versionNumber_restate updates.isRestated).2
      have same : ∀ other,
          IsVersion table next.live other ↔ IsVersion table catalog.live other := by
        intro other
        rw [isVersion_changed updates.changes updates.isNew]
        constructor
        · rintro (rfl | isOld)
          · exact isVersion
          · exact isOld
        · exact Or.inr
      have sameVersions : IsVersion table next.live = IsVersion table catalog.live :=
        funext fun other => propext (same other)
      refine ⟨numbered, updates.changes.inNamespace invariant.inNamespace,
        updates.changes.streams invariant.streams,
        TableInvariant.recorded invariant.versions updates.changes updates.isNew
          updates.ancestors updates.isName notEmpty, ?_, ⟨newTable, updates.isTable, ?_, ?_⟩⟩
      · rw [sameVersions]
        exact invariant.distinct
      · exact pointer_updated invariant pointers.active updates canonical staysActive
      · rw [sameVersions, updates.latest]
        exact pointers.latest

theorem TableInvariant.step (invariant : TableInvariant characters table catalog)
    {event : TableVersionEvent}
    (stepped : Guarded (KeepsPointers characters table)
      (TableVersionStep characters readerTypes table) catalog event next) :
    TableInvariant characters table next := by
  rcases stepped with ⟨keeps, onTable, completes⟩
  rcases completes.spec invariant.numbered with
    ⟨active, returns, settled, bounded, nextNumbered, sameLive⟩
  rcases invariant.holds with ⟨prevTable, holds, _⟩
  unfold KeepsPointers at keeps
  rcases isCall : event.call with ⟨request, streamId⟩ | ⟨request⟩
  · rw [isCall] at keeps onTable returns
    rcases Procedure.bind_eq_ok.mp returns with ⟨value, final, isCreated, isPure⟩
    obtain ⟨_, rfl⟩ := Procedure.pure_eq_ok.mp isPure
    rcases createTableVersion_spec settled invariant.inNamespace holds onTable.1 onTable.2
      isCreated bounded with ⟨finalSettled, given, tableVersion, parents, creates⟩
    rw [← sameLive] at creates
    exact invariant.create (nextNumbered finalSettled) holds creates keeps.1 keeps.2
  · rw [isCall] at keeps onTable returns
    rcases Procedure.bind_eq_ok.mp returns with ⟨value, final, isUpdated, isPure⟩
    obtain ⟨_, rfl⟩ := Procedure.pure_eq_ok.mp isPure
    rcases updateTableVersion_spec settled invariant.inNamespace holds invariant.versions
      invariant.streams onTable.1 onTable.2 isUpdated bounded with
      ⟨finalSettled, stored, newTable, old, new, tableVersion, rfl, updates⟩
    rw [← sameLive] at updates
    exact invariant.update (nextNumbered finalSettled) holds updates keeps.1 keeps.2

/-- Over every run of calls that keep the pointers, the pointers name the latest versions. -/
theorem latestVersions_run {events : List TableVersionEvent} (starts : WithoutTable table catalog)
    (run : Run (Guarded (KeepsPointers characters table)
      (TableVersionStep characters readerTypes table)) catalog events next) :
    LatestVersions characters table next := by
  have invariant : TableInvariant characters table next :=
    run.invariant (TableInvariant.start starts) (fun _ _ _ holds stepped => holds.step stepped)
  exact invariant.latestVersions

end Run

section Examples

/-- Word characters and digits among the ASCII characters. -/
def asciiCharacters : CharacterClasses where
  isWord char := char.isAlphanum || char = '_'
  digit char := if char.isDigit then some (char.toNat - '0'.toNat) else none
  digit_ascii := by
    intro char isDigit
    rw [if_pos isDigit]
  digit_dot := rfl
  digit_newline := rfl
  word_dot := rfl

def ordersPath : TablePath where
  namespaceName := "sales"
  tableName := "orders"
  namespaceId := "n1"
  tableId := "t1"
  hasNamespace := by decide
  hasName := by decide
  hasId := by decide

/-- A catalog with one namespace, committed at time 6. -/
def salesCatalog : Catalog :=
  { (Catalog.empty.writeTxn streamFounder (.create streamNamespace)).1 with
    success := fun txnId => if txnId = streamFounder then some 6 else none }

theorem salesCatalog_withoutTable : WithoutTable ordersPath salesCatalog := by
  have wellFormed : salesCatalog.WellFormed := by
    have created := Catalog.WellFormed.empty.writeTxn streamFounder
      (show (create streamNamespace).isWrite from rfl)
    exact { created with }
  have isRoot : ∀ file ∈ salesCatalog.files, file.dir.parentIds = [] := by decide +kernel
  have nothingBelow : ∀ dir : RevisionDir, dir.parentIds ≠ [] → salesCatalog.live dir = none := by
    intro dir isBelow
    by_contra isLive
    rcases Option.ne_none_iff_exists'.mp isLive with ⟨content, isContent⟩
    rcases Catalog.live_eq_some.mp isContent with ⟨file, isCurrent, _⟩
    rcases Catalog.current_eq_some isCurrent with ⟨fileMem, isDir, _⟩
    exact isBelow (isDir ▸ isRoot file fileMem)
  exact ⟨⟨wellFormed, by decide +kernel, by decide +kernel⟩, ⟨by decide +kernel, by decide +kernel⟩,
    nothingBelow _ (by decide), nothingBelow _ (by decide), fun _ => nothingBelow _ (by simp
      [TablePath.versionDir, TablePath.ids]), fun _ _ => nothingBelow _ (by simp
      [TablePath.streamIds])⟩

/-- A request for the next version of the table. -/
def nextOrdersVersion (lifecycleState : LifecycleState) : TableVersionCreation where
  namespaceName := "sales"
  tableName := "orders"
  lifecycleState := some lifecycleState

/-- Creating the next version of the table. -/
def createsVersion (time : ℕ) (lifecycleState : LifecycleState) (streamId : String) :
    TableVersionEvent where
  txnId := .numbered time 1
  now := some (time + 1)
  call := .create (nextOrdersVersion lifecycleState) streamId

/-- The catalog after such a call. -/
def afterVersionCall (catalog : Catalog) (event : TableVersionEvent) : Catalog :=
  catalog.completed event.txnId event.now
    (event.call.perform asciiCharacters (fun _ => .ok []) ordersPath.tableId)

theorem tableVersionStep_createsVersion {catalog : Catalog} {time : ℕ}
    {lifecycleState : LifecycleState} {streamId : String}
    (seesAll : catalog.AllVisible (createsVersion time lifecycleState streamId).txnId)
    (isCompleted : catalog.isCompleted (createsVersion time lifecycleState streamId).txnId
      (createsVersion time lifecycleState streamId).now
      ((createsVersion time lifecycleState streamId).call.perform asciiCharacters
        (fun _ => .ok []) ordersPath.tableId))
    (bounded : ∀ file ∈ (afterVersionCall catalog
      (createsVersion time lifecycleState streamId)).files,
      file.info.revision ≤ maxRevisionNumber) :
    TableVersionStep asciiCharacters (fun _ => .ok []) ordersPath catalog
      (createsVersion time lifecycleState streamId)
      (afterVersionCall catalog (createsVersion time lifecycleState streamId)) := by
  rcases Catalog.completes_of_isCompleted seesAll isCompleted bounded with ⟨value, completes⟩
  exact ⟨⟨rfl, rfl⟩, completes⟩

/-- Creating an active version without naming it keeps the pointers. -/
theorem keepsPointers_createsActive (catalog : Catalog) (time : ℕ) (streamId : String) :
    KeepsPointers asciiCharacters ordersPath catalog (createsVersion time .active streamId) := by
  have isGiven : Canonical asciiCharacters none := by
    rintro _ ⟨⟩
  exact ⟨isGiven, Or.inl rfl⟩

/-- Two active versions are created, and the table points to the second one. -/
theorem latestVersions_run_active :
    ∃ events catalog stored,
      Run (Guarded (KeepsPointers asciiCharacters ordersPath)
        (TableVersionStep asciiCharacters (fun _ => .ok []) ordersPath)) salesCatalog events
        catalog ∧
      catalog.live ordersPath.dir = some (.metafile stored) ∧
      stored.latestActiveTableVersion = some "2" ∧
      LatestVersions asciiCharacters ordersPath catalog := by
  let first := createsVersion 10 .active "s1"
  let second := createsVersion 20 .active "s2"
  have firstStep : TableVersionStep asciiCharacters (fun _ => .ok []) ordersPath salesCatalog first
      (afterVersionCall salesCatalog first) :=
    tableVersionStep_createsVersion (by decide +kernel) (by decide +kernel) (by decide +kernel)
  have secondStep : TableVersionStep asciiCharacters (fun _ => .ok []) ordersPath
      (afterVersionCall salesCatalog first) second
      (afterVersionCall (afterVersionCall salesCatalog first) second) :=
    tableVersionStep_createsVersion (by decide +kernel) (by decide +kernel) (by decide +kernel)
  have keepsFirst := keepsPointers_createsActive salesCatalog 10 "s1"
  have keepsSecond := keepsPointers_createsActive (afterVersionCall salesCatalog first) 20 "s2"
  have guardedFirst : Guarded (KeepsPointers asciiCharacters ordersPath)
      (TableVersionStep asciiCharacters (fun _ => .ok []) ordersPath) _ _ _ :=
    ⟨keepsFirst, firstStep⟩
  have run := (Run.nil.snoc guardedFirst).snoc ⟨keepsSecond, secondStep⟩
  have isPointer : ((afterVersionCall (afterVersionCall salesCatalog first) second).live
      ordersPath.dir).any (fun content =>
        match content with
        | .metafile stored => stored.latestActiveTableVersion = some "2"
        | .mapping _ => false) := by
    decide +kernel
  rcases (Option.any_eq_true _ _).mp isPointer with ⟨content, isStored, isSecond⟩
  cases content with
  | mapping id => simp at isSecond
  | metafile stored =>
      exact ⟨_, _, stored, run, isStored, by simpa using isSecond,
        latestVersions_run salesCatalog_withoutTable run⟩

/-- Creating a version that is not active clears the pointer to the one that is. -/
theorem not_latestVersions_run :
    ¬∀ (characters : CharacterClasses) (readerTypes : String → Except Error (List String))
      (table : TablePath) (catalog next : Catalog) (events : List TableVersionEvent),
      WithoutTable table catalog →
      Run (TableVersionStep characters readerTypes table) catalog events next →
      LatestVersions characters table next := by
  intro latestVersions
  let first := createsVersion 10 .active "s1"
  let second := createsVersion 20 .created "s2"
  have firstStep : TableVersionStep asciiCharacters (fun _ => .ok []) ordersPath salesCatalog first
      (afterVersionCall salesCatalog first) :=
    tableVersionStep_createsVersion (by decide +kernel) (by decide +kernel) (by decide +kernel)
  have secondStep : TableVersionStep asciiCharacters (fun _ => .ok []) ordersPath
      (afterVersionCall salesCatalog first) second
      (afterVersionCall (afterVersionCall salesCatalog first) second) :=
    tableVersionStep_createsVersion (by decide +kernel) (by decide +kernel) (by decide +kernel)
  have holds := latestVersions _ _ _ _ _ _ salesCatalog_withoutTable
    ((Run.nil.snoc firstStep).snoc secondStep)
  have isCleared : ((afterVersionCall (afterVersionCall salesCatalog first) second).live
      ordersPath.dir).any (fun content =>
        match content with
        | .metafile stored => stored.latestActiveTableVersion = none
        | .mapping _ => false) := by
    decide +kernel
  have isActive : ((afterVersionCall (afterVersionCall salesCatalog first) second).live
      (ordersPath.versionDir "1")).any (fun content =>
        match content with
        | .metafile stored => stored.lifecycleState = some .active
        | .mapping _ => false) := by
    decide +kernel
  rcases (Option.any_eq_true _ _).mp isCleared with ⟨content, isStored, noPointer⟩
  rcases (Option.any_eq_true _ _).mp isActive with ⟨version, isVersion, isState⟩
  cases content with
  | mapping id => simp at noPointer
  | metafile stored =>
      cases version with
      | mapping id => simp at isState
      | metafile stillActive =>
          have noneActive := (holds stored isStored).2.1.mp (by simpa using noPointer)
          exact noneActive "1" ⟨stillActive, isVersion, by simpa using isState⟩

end Examples

end Deltacat.Storage
