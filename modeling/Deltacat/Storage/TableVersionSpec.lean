import Deltacat.Storage.PartitionCommit
import Deltacat.Storage.TableVersion
import Mathlib.Data.List.TakeWhile

/-!
# What the calls on table versions do

Specifications of `create_table_version` and `update_table_version` over a settled
catalog (`createTableVersion_spec` and `updateTableVersion_spec`). Version strings
are compared by their numbers; the canonical form of a version has the number of
the version itself (`versionNumber_restate`). A call writes the table, one version
and the stream of that version, and leaves everything else as it is (`Changes`).
-/

namespace Deltacat.Storage

open Deltacat.Library MetafileRevisionInfo TransactionM TransactionOperation

section Versions

variable {characters : CharacterClasses}

theorem splitAtDot_of_notMem {text : List Char} (noDot : '.' ∉ text) :
    splitAtDot text = (none, text) := by
  have isWhole : text.dropWhile (· ≠ '.') = [] := by
    rw [List.dropWhile_eq_nil_iff]
    intro char charMem
    simp only [ne_eq, decide_not, Bool.not_eq_eq_eq_not, Bool.not_true, decide_eq_false_iff_not]
    rintro rfl
    exact noDot charMem
  unfold splitAtDot
  rw [isWhole]

theorem splitAtDot_append {word number : List Char} (noDot : '.' ∉ word) :
    splitAtDot (word ++ '.' :: number) = (some (word ++ ['.']), number) := by
  have kept : ∀ char ∈ word, (decide (char ≠ '.')) = true := by
    intro char charMem
    simp only [ne_eq, decide_not, Bool.not_eq_eq_eq_not, Bool.not_true, decide_eq_false_iff_not]
    rintro rfl
    exact noDot charMem
  unfold splitAtDot
  rw [List.dropWhile_append_of_pos kept, List.takeWhile_append_of_pos kept]
  simp

/-- The two parts of a text, in the two cases. -/
theorem splitAtDot_cases (text : List Char) :
    ('.' ∉ text ∧ splitAtDot text = (none, text)) ∨
      ∃ word number, '.' ∉ word ∧ text = word ++ '.' :: number ∧
        splitAtDot text = (some (word ++ ['.']), number) := by
  by_cases hasDot : '.' ∈ text
  · right
    rcases List.eq_append_cons_of_mem hasDot with ⟨word, number, rfl, noDot⟩
    exact ⟨word, number, noDot, rfl, splitAtDot_append noDot⟩
  · exact Or.inl ⟨hasDot, splitAtDot_of_notMem hasDot⟩

theorem mapM_digit {digits : List Char} (areDigits : ∀ char ∈ digits, char.isDigit) :
    digits.mapM characters.digit = some (digits.map fun char => char.toNat - '0'.toNat) := by
  induction digits with
  | nil => rfl
  | cons char digits ih =>
      rw [List.mapM_cons, characters.digit_ascii char (areDigits char (by simp)),
        ih fun other otherMem => areDigits other (by simp [otherMem])]
      rfl

theorem numberOf_toDigits (number : ℕ) :
    numberOf characters (Nat.toDigits 10 number) = some number := by
  have notNil : Nat.toDigits 10 number ≠ [] := Nat.toDigits_ne_nil
  have isValue := Nat.ofDigitChars_ten_toDigits (n := number)
  unfold numberOf
  rw [if_neg notNil, mapM_digit fun char charMem =>
    Nat.isDigit_of_mem_toDigits (by norm_num) (by norm_num) charMem, Option.map_some,
    List.foldl_map]
  rw [Nat.ofDigitChars] at isValue
  exact congrArg some isValue

theorem withoutNewline_toDigits (number : ℕ) :
    withoutNewline (Nat.toDigits 10 number) = Nat.toDigits 10 number := by
  unfold withoutNewline
  rw [if_neg]
  intro isNewline
  have isDigit := Nat.isDigit_of_mem_toDigits (by norm_num) (by norm_num)
    (List.mem_of_getLast? isNewline)
  exact absurd isDigit (by decide)

theorem dot_notMem_toDigits (number : ℕ) : '.' ∉ Nat.toDigits 10 number := by
  intro isDot
  have isDigit := Nat.isDigit_of_mem_toDigits (by norm_num) (by norm_num) isDot
  exact absurd isDigit (by decide)

/-- The canonical form of a version has the same parts, with any other number. -/
theorem matchTableVersion_format {text : List Char} {stem : Option (List Char)} {number : ℕ}
    (isMatch : matchTableVersion characters text = some (stem, number)) (other : ℕ) :
    matchTableVersion characters (formatTableVersion (stem, other)).toList =
      some (stem, other) := by
  simp only [matchTableVersion] at isMatch
  rcases splitAtDot_cases text with ⟨_, isSplit⟩ | ⟨word, rest, noDot, _, isSplit⟩
  · rw [isSplit] at isMatch
    split at isMatch
    · rcases Option.map_eq_some_iff.mp isMatch with ⟨value, _, isPair⟩
      obtain ⟨rfl, rfl⟩ := Prod.mk.injEq _ _ _ _ ▸ isPair
      simp [matchTableVersion, formatTableVersion, splitAtDot_of_notMem (dot_notMem_toDigits other),
        withoutNewline_toDigits, numberOf_toDigits]
    · cases isMatch
  · rw [isSplit] at isMatch
    split at isMatch
    case isTrue areWords =>
      rcases Option.map_eq_some_iff.mp isMatch with ⟨value, _, isPair⟩
      obtain ⟨rfl, rfl⟩ := Prod.mk.injEq _ _ _ _ ▸ isPair
      have isText : (formatTableVersion (some (word ++ ['.']), other)).toList =
          word ++ '.' :: Nat.toDigits 10 other := by
        simp [formatTableVersion]
      unfold matchTableVersion
      rw [isText, splitAtDot_append noDot]
      simp only [areWords, if_true, withoutNewline_toDigits, numberOf_toDigits, Option.map_some]
    case isFalse => cases isMatch

theorem parseTableVersion_eq_ok {tableVersion : String} {parsed : Option (List Char) × ℕ} :
    parseTableVersion characters tableVersion = .ok parsed ↔
      tableVersion ≠ "" ∧ tableVersion.length ≤ 1024 ∧
        matchTableVersion characters tableVersion.toList = some parsed := by
  unfold parseTableVersion
  by_cases isEmpty : tableVersion = ""
  · simp [isEmpty]
  by_cases isLong : 1024 < tableVersion.length
  · simp [isEmpty, isLong]
  cases isMatch : matchTableVersion characters tableVersion.toList <;>
    simp [isEmpty, isLong, not_lt.mp isLong]

variable (characters) in
/-- The number of a version. -/
def versionNumber (tableVersion : String) : ℕ :=
  ((matchTableVersion characters tableVersion.toList).map Prod.snd).getD 0

theorem versionNumber_of_parse {tableVersion : String} {stem : Option (List Char)} {number : ℕ}
    (isParsed : parseTableVersion characters tableVersion = .ok (stem, number)) :
    versionNumber characters tableVersion = number := by
  simp [versionNumber, (parseTableVersion_eq_ok.mp isParsed).2.2]

theorem versionNumber_format {tableVersion : String} {stem : Option (List Char)} {number : ℕ}
    (isParsed : parseTableVersion characters tableVersion = .ok (stem, number)) (other : ℕ) :
    versionNumber characters (formatTableVersion (stem, other)) = other := by
  simp [versionNumber, matchTableVersion_format (parseTableVersion_eq_ok.mp isParsed).2.2 other]

theorem format_ne_empty (parsed : Option (List Char) × ℕ) : formatTableVersion parsed ≠ "" := by
  intro isEmpty
  have noText := congrArg String.toList isEmpty
  simp [formatTableVersion, Nat.toDigits_ne_nil] at noText

theorem restateTableVersion_eq_ok {tableVersion restated : String}
    (isRestated : restateTableVersion characters tableVersion = .ok restated) :
    ∃ parsed, parseTableVersion characters tableVersion = .ok parsed ∧
      restated = formatTableVersion parsed := by
  unfold restateTableVersion at isRestated
  cases isParsed : parseTableVersion characters tableVersion with
  | error error =>
      rw [isParsed] at isRestated
      cases isRestated
  | ok parsed =>
      rw [isParsed] at isRestated
      cases isRestated
      exact ⟨parsed, rfl, rfl⟩

theorem versionNumber_restate {tableVersion restated : String}
    (isRestated : restateTableVersion characters tableVersion = .ok restated) :
    versionNumber characters restated = versionNumber characters tableVersion ∧ restated ≠ "" := by
  rcases restateTableVersion_eq_ok isRestated with ⟨⟨stem, number⟩, isParsed, rfl⟩
  rw [versionNumber_format isParsed, versionNumber_of_parse isParsed]
  exact ⟨rfl, format_ne_empty _⟩

/-- The default version is in its canonical form. -/
theorem restateTableVersion_default :
    restateTableVersion characters defaultTableVersion = .ok defaultTableVersion := by
  have isOne : defaultTableVersion.toList = Nat.toDigits 10 1 := by decide +kernel
  have isMatch : matchTableVersion characters defaultTableVersion.toList = some (none, 1) := by
    unfold matchTableVersion
    rw [isOne, splitAtDot_of_notMem (dot_notMem_toDigits 1)]
    simp [withoutNewline_toDigits, numberOf_toDigits]
  have isParsed := parseTableVersion_eq_ok.mpr ⟨by decide, by decide +kernel, isMatch⟩
  unfold restateTableVersion
  rw [isParsed]
  exact congrArg Except.ok (by decide +kernel)

/-- The version after a given one is in its canonical form. -/
theorem nextVersion_eq_ok {previous next : String}
    (isNext : nextVersion characters (some previous) = .ok next) :
    versionNumber characters next = versionNumber characters previous + 1 ∧
      ∀ restated, restateTableVersion characters next = .ok restated → restated = next := by
  rcases except_bind_eq_ok.mp isNext with ⟨⟨stem, number⟩, isParsed, isResult⟩
  cases isResult
  have isMatch := (parseTableVersion_eq_ok.mp isParsed).2.2
  rw [versionNumber_format isParsed, versionNumber_of_parse isParsed]
  refine ⟨rfl, ?_⟩
  intro restated isRestated
  rcases restateTableVersion_eq_ok isRestated with ⟨other, isOther, rfl⟩
  have sameMatch := (parseTableVersion_eq_ok.mp isOther).2.2
  rw [matchTableVersion_format isMatch] at sameMatch
  cases sameMatch
  rfl

/-- A version was given in its canonical form, or none was given. -/
def Canonical (characters : CharacterClasses) (given : Option String) : Prop :=
  ∀ tableVersion, nonEmpty given = some tableVersion →
    restateTableVersion characters tableVersion = .ok tableVersion

/-- The version of a new table is stored as it was given. -/
theorem newTableVersion_none {given : Option String} {tableVersion restated : String}
    (isNew : newTableVersion characters none given = .ok tableVersion)
    (canonical : Canonical characters given)
    (isRestated : restateTableVersion characters tableVersion = .ok restated) :
    restated = tableVersion := by
  unfold newTableVersion at isNew
  cases isNew
  cases isGiven : nonEmpty given with
  | none =>
      rw [isGiven] at isRestated
      exact Except.ok.inj (isRestated.symm.trans restateTableVersion_default)
  | some tableVersion =>
      rw [isGiven] at isRestated
      exact Except.ok.inj (isRestated.symm.trans (canonical tableVersion isGiven))

/-- The version of an existing table follows the one that was created before. -/
theorem newTableVersion_some {prevTable : Metafile} {given : Option String}
    {last tableVersion restated : String} (isLast : prevTable.latestTableVersion = some last)
    (isNew : newTableVersion characters (some prevTable) given = .ok tableVersion)
    (isRestated : restateTableVersion characters tableVersion = .ok restated) :
    versionNumber characters restated = versionNumber characters last + 1 ∧
      (Canonical characters given → restated = tableVersion) := by
  have sameNumber := (versionNumber_restate isRestated).1
  unfold newTableVersion at isNew
  cases isGiven : nonEmpty given with
  | none =>
      rw [isGiven] at isNew
      simp only [isLast] at isNew
      rcases nextVersion_eq_ok isNew with ⟨isNumber, isCanonical⟩
      exact ⟨sameNumber.trans isNumber, fun _ => isCanonical restated isRestated⟩
  | some requested =>
      rw [isGiven] at isNew
      simp only [isLast] at isNew
      rcases except_bind_eq_ok.mp isNew with ⟨expected, isExpected, afterExpected⟩
      rcases except_bind_eq_ok.mp afterExpected with ⟨⟨stem, number⟩, isParsed, afterParsed⟩
      rcases except_bind_eq_ok.mp afterParsed with ⟨⟨_, expectedNumber⟩, isOther, isResult⟩
      simp only at isResult
      split at isResult
      · cases isResult
      case isFalse isEqual =>
        cases isResult
        refine ⟨?_, ?_⟩
        · calc versionNumber characters restated
              = versionNumber characters tableVersion := sameNumber
            _ = number := versionNumber_of_parse isParsed
            _ = expectedNumber := not_not.mp isEqual
            _ = versionNumber characters expected := (versionNumber_of_parse isOther).symm
            _ = versionNumber characters last + 1 := (nextVersion_eq_ok isExpected).1
        · intro canonical
          exact Except.ok.inj (isRestated.symm.trans (canonical tableVersion isGiven))

end Versions

namespace Catalog

variable {catalog : Catalog} {txnId : TransactionId}

/-- An object that lives has its directory. -/
theorem Numbered.objectDirs_of_live (numbered : catalog.Numbered) {parentIds : List String}
    {id : String} (isLive : catalog.live ⟨parentIds, .metafile id⟩ ≠ none) :
    parentIds ++ [id] ∈ catalog.objectDirs := by
  rcases Option.ne_none_iff_exists'.mp isLive with ⟨content, isContent⟩
  rcases live_eq_some.mp isContent with ⟨file, isCurrent, _⟩
  rcases current_eq_some isCurrent with ⟨fileMem, isDir, _⟩
  apply numbered.wellFormed.housed file fileMem
  rw [isDir]
  simp only [directoriesOf]
  cases isPath : parentIds ++ [id] with
  | nil => simp at isPath
  | cons first rest => simp

theorem ancestorIdsFrom_cons {reader : Reader} {name : LocatorName} {names : List LocatorName}
    {root : List String} {id : String}
    (isId : catalog.locatorToId reader root name = .ok (some id)) :
    catalog.ancestorIdsFrom reader (name :: names) root =
      if root ++ [id] ∈ catalog.objectDirs then
        catalog.ancestorIdsFrom reader names (root ++ [id])
      else .error .objectNotFoundError := by
  simp only [ancestorIdsFrom, isId, bind, Except.bind]

/-- What is looked up lies below the ancestors of the lookup. -/
theorem resolve_below {reader : Reader} {metafile : Metafile} {dir : RevisionDir}
    (isResolved : catalog.resolve reader metafile = .ok (some dir)) :
    ∃ parentIds id, catalog.ancestorIds reader metafile = .ok parentIds ∧
      dir = ⟨parentIds, .metafile id⟩ := by
  unfold resolve at isResolved
  cases isRoot : catalog.ancestorIds reader metafile with
  | error error =>
      rw [isRoot] at isResolved
      cases error <;> cases isResolved
  | ok parentIds =>
      rw [isRoot] at isResolved
      have below : ∀ immutableId : Option String,
          (nonEmpty immutableId).map (RevisionDir.mk parentIds ∘ .metafile) = some dir →
            ∃ id, dir = ⟨parentIds, .metafile id⟩ := by
        intro immutableId isDir
        rcases Option.map_eq_some_iff.mp isDir with ⟨id, _, rfl⟩
        exact ⟨id, rfl⟩
      simp only at isResolved
      split at isResolved
      · cases isResolved
      split at isResolved
      all_goals
        rcases except_bind_eq_ok.mp isResolved with ⟨immutableId, _, isResult⟩
        rcases below immutableId (Except.ok.inj isResult) with ⟨id, isDir⟩
        exact ⟨parentIds, id, rfl, isDir⟩

/-- An object that cannot be renamed is looked up by its identifier. -/
theorem resolve_immutable {reader : Reader} {metafile : Metafile} {parentIds : List String}
    {id immutableId : String} (noUuid : metafile.uuid = none)
    (isImmutable : metafile.locator.name.immutableId = some immutableId)
    (notEmpty : immutableId ≠ "")
    (isResolved : catalog.resolve reader metafile = .ok (some ⟨parentIds, .metafile id⟩)) :
    id = immutableId := by
  have isName : lookupName metafile = some metafile.locator.name := by
    simp [lookupName, LocatorName.isDefined, isImmutable]
  unfold resolve at isResolved
  rw [isName, noUuid] at isResolved
  cases isRoot : catalog.ancestorIds reader metafile with
  | error error =>
      rw [isRoot] at isResolved
      cases error <;> cases isResolved
  | ok parentRoot =>
      rw [isRoot] at isResolved
      have noneIsEmpty : nonEmpty (none : Option String) = none := rfl
      simp only [noneIsEmpty, locatorToId, isImmutable, bind, Except.bind, pure, Except.pure,
        nonEmpty_some notEmpty, Option.map_some, Except.ok.injEq, Option.some.injEq,
        RevisionDir.mk.injEq, RevisionEntry.metafile.injEq] at isResolved
      exact isResolved.2.symm

end Catalog

/-- A table, by its name and identifier and those of its namespace. -/
structure TablePath where
  namespaceName : String
  tableName : String
  namespaceId : String
  tableId : String
  hasNamespace : namespaceName ≠ ""
  hasName : tableName ≠ ""
  hasId : tableId ≠ ""

/-- The identifier in a name mapping. -/
def RevisionContent.mappedId : RevisionContent → Option String
  | .mapping id => some id
  | .metafile _ => none

namespace TablePath

variable (table : TablePath)

/-- The directory of the table's revisions. -/
def dir : RevisionDir := ⟨[table.namespaceId], .metafile table.tableId⟩

/-- The directory that maps the table's name. -/
def mapping : RevisionDir := ⟨[table.namespaceId], .mapping (.tableName table.tableName)⟩

/-- The identifiers of the ancestors of the table's versions. -/
def ids : List String := [table.namespaceId, table.tableId]

/-- The directory of the revisions of a version. -/
def versionDir (tableVersion : String) : RevisionDir := ⟨table.ids, .metafile tableVersion⟩

/-- The identifiers of the ancestors of the streams of a version. -/
def streamIds (tableVersion : String) : List String :=
  [table.namespaceId, table.tableId, tableVersion]

/-- The names of the table and of its namespace. -/
def names : List LocatorName := [.namespaceName table.namespaceName, .tableName table.tableName]

/-- The namespace of the table is there. -/
structure InNamespace (store : LiveStore) : Prop where
  mapped : store ⟨[], .mapping (.namespaceName table.namespaceName)⟩ =
    some (.mapping table.namespaceId)
  isThere : store ⟨[], .metafile table.namespaceId⟩ ≠ none

/-- A metafile of the table. -/
structure IsTable (stored : Metafile) : Prop where
  isName : stored.locator.name = .tableName table.tableName
  isId : stored.uuid = some table.tableId
  ancestors : stored.ancestorIds = [table.namespaceId]

/-- The table as it is stored, if it was created. -/
def Holds (store : LiveStore) : Option Metafile → Prop
  | none => store table.mapping = none
  | some stored => store table.mapping = some (.mapping table.tableId) ∧
      store table.dir = some (.metafile stored) ∧ table.IsTable stored

theorem tableLocatorAt_eq :
    Locator.tableLocatorAt (some table.namespaceName) (some table.tableName) =
      ⟨[.namespaceName table.namespaceName], .tableName table.tableName⟩ := by
  simp [Locator.tableLocatorAt, nonEmpty_some table.hasNamespace]

theorem tableVersionLocatorAt_eq (tableVersion : String) :
    Locator.tableVersionLocatorAt (some table.namespaceName) (some table.tableName)
      (some tableVersion) = ⟨table.names, .tableVersionName tableVersion⟩ := by
  simp [Locator.tableVersionLocatorAt, nonEmpty_some table.hasName, tableLocatorAt_eq,
    Locator.names, names]

theorem streamLocatorAt_eq {tableVersion : String} (notEmpty : tableVersion ≠ "")
    (streamId streamFormat : Option String) :
    Locator.streamLocatorAt (some table.namespaceName) (some table.tableName)
      (some tableVersion) streamId streamFormat =
        ⟨table.names ++ [.tableVersionName tableVersion], .streamName streamId streamFormat⟩ := by
  simp [Locator.streamLocatorAt, nonEmpty_some notEmpty, tableVersionLocatorAt_eq, Locator.names]

section Lookups

variable {table} {catalog : Catalog} {txnId : TransactionId} (numbered : catalog.Numbered)
  (allVisible : catalog.AllVisible txnId) (inNamespace : table.InNamespace catalog.live)

include numbered allVisible inNamespace

theorem namespaceIds_eq (names : List LocatorName) :
    catalog.ancestorIdsFrom (Catalog.readerOf txnId)
        (.namespaceName table.namespaceName :: names) [] =
      catalog.ancestorIdsFrom (Catalog.readerOf txnId) names [table.namespaceId] := by
  have isId : catalog.locatorToId (Catalog.readerOf txnId) []
      (.namespaceName table.namespaceName) = .ok (some table.namespaceId) := by
    rw [Catalog.locatorToId_eq_live numbered allVisible [] rfl, inNamespace.mapped]
    rfl
  rw [Catalog.ancestorIdsFrom_cons isId,
    if_pos (numbered.objectDirs_of_live inNamespace.isThere)]
  rfl

/-- Whatever lies below the table lies below its identifier, if its name is mapped. -/
theorem tableIds_eq (isMapped : catalog.live table.mapping = some (.mapping table.tableId))
    {names : List LocatorName} {parentIds : List String}
    (isRoot : catalog.ancestorIdsFrom (Catalog.readerOf txnId) (table.names ++ names) [] =
      .ok parentIds) :
    catalog.ancestorIdsFrom (Catalog.readerOf txnId) names table.ids = .ok parentIds := by
  have isId : catalog.locatorToId (Catalog.readerOf txnId) [table.namespaceId]
      (.tableName table.tableName) = .ok (some table.tableId) := by
    rw [Catalog.locatorToId_eq_live numbered allVisible _ rfl]
    have sameMapped : catalog.live ⟨[table.namespaceId], .mapping (.tableName table.tableName)⟩ =
        some (.mapping table.tableId) := isMapped
    rw [sameMapped]
    rfl
  rw [show table.names ++ names = .namespaceName table.namespaceName ::
    .tableName table.tableName :: names from rfl, namespaceIds_eq numbered allVisible inNamespace,
    Catalog.ancestorIdsFrom_cons isId] at isRoot
  split at isRoot
  · exact isRoot
  · cases isRoot

/-- Looking the table up finds it, if it was created. -/
theorem found_table {prevTable item : Option Metafile}
    (holds : table.Holds catalog.live prevTable)
    (isFound : catalog.found (Catalog.readerOf txnId)
      { locator := .tableLocatorAt (some table.namespaceName) (some table.tableName) } =
        .ok item) :
    ∃ parents, item = prevTable.map (·.withParents parents) := by
  have isResolved : catalog.resolve (Catalog.readerOf txnId)
      { locator := .tableLocatorAt (some table.namespaceName) (some table.tableName) } =
        .ok ((nonEmpty ((catalog.live table.mapping).bind RevisionContent.mappedId)).map
          fun id => ⟨[table.namespaceId], .metafile id⟩) := by
    have isAncestors : catalog.ancestorIdsFrom (Catalog.readerOf txnId)
        [.namespaceName table.namespaceName] [] = .ok [table.namespaceId] :=
      namespaceIds_eq numbered allVisible inNamespace []
    have isDefined : (LocatorName.tableName table.tableName).isDefined := by
      simp [LocatorName.isDefined, LocatorName.immutableId, table.hasName]
    rw [tableLocatorAt_eq]
    unfold Catalog.resolve
    simp only [Catalog.ancestorIds, if_true, isAncestors, Catalog.lookupName, isDefined, nonEmpty,
      Option.filter_none,
      Catalog.locatorToId_eq_live numbered allVisible _ (show (LocatorName.tableName
        table.tableName).immutableId = none from rfl), bind, Except.bind, pure, Except.pure]
    rfl
  cases prevTable with
  | none =>
      have isFree : catalog.live table.mapping = none := holds
      rw [isFree] at isResolved
      cases item with
      | none => exact ⟨[], rfl⟩
      | some found =>
          rcases Catalog.found_eq_some numbered allVisible isFound with ⟨dir, _, _, isDir, _⟩
          rw [isResolved] at isDir
          cases isDir
  | some stored =>
      rcases holds with ⟨isMapped, isStored, _⟩
      rw [isMapped] at isResolved
      simp only [Option.bind_some, RevisionContent.mappedId, nonEmpty_some table.hasId,
        Option.map_some] at isResolved
      cases item with
      | none =>
          rcases Catalog.found_eq_none numbered allVisible isFound with
            noDir | ⟨dir, isDir, isGone⟩
          · rw [isResolved] at noDir
            cases noDir
          · rw [isResolved] at isDir
            cases isDir
            rw [show catalog.live ⟨[table.namespaceId], .metafile table.tableId⟩ =
              some (.metafile stored) from isStored] at isGone
            cases isGone
      | some found =>
          rcases Catalog.found_eq_some numbered allVisible isFound with
            ⟨dir, sameStored, parents, isDir, isLive, rfl⟩
          rw [isResolved] at isDir
          cases isDir
          have same := isStored.symm.trans isLive
          cases same
          exact ⟨parents, rfl⟩

/-- What is found below the table lies below its identifier. -/
theorem found_below {prevTable : Option Metafile} (holds : table.Holds catalog.live prevTable)
    {metafile item : Metafile} {names : List LocatorName}
    (noAncestors : metafile.ancestorIds = [])
    (isBelow : metafile.locator.parents = table.names ++ names)
    (isFound : catalog.found (Catalog.readerOf txnId) metafile = .ok (some item)) :
    prevTable.isSome ∧ ∃ parentIds id stored parents,
      catalog.resolve (Catalog.readerOf txnId) metafile = .ok (some ⟨parentIds, .metafile id⟩) ∧
      catalog.ancestorIdsFrom (Catalog.readerOf txnId) names table.ids = .ok parentIds ∧
      catalog.live ⟨parentIds, .metafile id⟩ = some (.metafile stored) ∧
      item = stored.withParents parents := by
  rcases Catalog.found_eq_some numbered allVisible isFound with
    ⟨dir, stored, parents, isResolved, isLive, isItem⟩
  rcases Catalog.resolve_below isResolved with ⟨parentIds, id, isRoot, rfl⟩
  unfold Catalog.ancestorIds at isRoot
  rw [if_pos noAncestors, isBelow] at isRoot
  cases prevTable with
  | none =>
      -- Without a mapping of its name, nothing is found below the table.
      have isFree : catalog.live table.mapping = none := holds
      rw [show table.names ++ names = .namespaceName table.namespaceName ::
        .tableName table.tableName :: names from rfl,
        namespaceIds_eq numbered allVisible inNamespace] at isRoot
      have noId : catalog.locatorToId (Catalog.readerOf txnId) [table.namespaceId]
          (.tableName table.tableName) = .ok none := by
        rw [Catalog.locatorToId_eq_live numbered allVisible _ rfl]
        rw [show catalog.live ⟨[table.namespaceId], .mapping (.tableName table.tableName)⟩ =
          none from isFree]
        rfl
      simp only [Catalog.ancestorIdsFrom, noId, bind, Except.bind] at isRoot
      cases isRoot
  | some prevTable =>
      exact ⟨rfl, parentIds, id, stored, parents, isResolved,
        tableIds_eq numbered allVisible inNamespace holds.1 isRoot, isLive, isItem⟩

end Lookups

end TablePath

section Procedures

variable {active next : ActiveTransaction}

theorem ofExcept_eq_ok {Value : Type} {result : Except Error Value} {value : Value} :
    (ofExcept result : TransactionM Value) active = .ok value next ↔
      result = .ok value ∧ active = next := by
  cases result with
  | error error => simp [ofExcept, throw, throwThe, MonadExceptOf.throw, EStateM.throw]
  | ok found => simp [ofExcept, pure, EStateM.pure]

theorem preserves_isThere (metafile : Metafile) :
    Procedure.Preserves ActiveTransaction.written (isThere metafile) := by
  apply Procedure.Preserves.bind
  · intro active
    have isRead : TransactionOperation.isWrite (.readExists metafile none) = false := rfl
    have isStep : (active.step (.readExists metafile none)).1.written = active.written := by
      simp only [ActiveTransaction.step, isRead]
      split
      · rfl
      · simp only [Bool.false_eq_true, if_false]
        rw [ActiveTransaction.readStep_written, ActiveTransaction.listed_written]
    rw [← isStep]
    unfold Procedure.finalState step
    rcases active.step (.readExists metafile none) with ⟨after, error | result⟩ <;> rfl
  · rintro (result | result)
    · apply Procedure.preserves_pure
    · apply Procedure.preserves_pure

end Procedures

section Calls

variable {characters : CharacterClasses} {table : TablePath}

/-- The streams of the table's versions are stored under their own identifiers. -/
def StreamsRecorded (table : TablePath) (store : LiveStore) : Prop :=
  ∀ tableVersion id stored,
    store ⟨table.streamIds tableVersion, .metafile id⟩ = some (.metafile stored) →
      stored.ancestorIds = table.streamIds tableVersion ∧ stored.id = id

/-- What a call leaves as it is, apart from the table and one of its versions. -/
structure Changes (table : TablePath) (store final : LiveStore) (tableVersion : String) : Prop where
  inNamespace : table.InNamespace store → table.InNamespace final
  others : ∀ other, other ≠ tableVersion →
    final (table.versionDir other) = store (table.versionDir other)
  streams : StreamsRecorded table store → StreamsRecorded table final

theorem Changes.trans {store middle final : LiveStore} {tableVersion : String}
    (first : Changes table store middle tableVersion)
    (second : Changes table middle final tableVersion) :
    Changes table store final tableVersion where
  inNamespace := fun inNamespace => second.inNamespace (first.inNamespace inNamespace)
  others := fun other isOther => (second.others other isOther).trans (first.others other isOther)
  streams := fun recorded => second.streams (first.streams recorded)

/-- A write below one object changes nothing elsewhere. -/
theorem changes_of_frame {store final : LiveStore} {tableVersion : String}
    {parentIds : List String} (notRoot : parentIds ≠ [])
    (frame : ∀ dir, dir.parentIds ≠ parentIds → final dir = store dir)
    (others : parentIds = table.ids → ∀ other, other ≠ tableVersion →
      final (table.versionDir other) = store (table.versionDir other))
    (streams : ∀ other id stored, parentIds = table.streamIds other →
      final ⟨parentIds, .metafile id⟩ = some (.metafile stored) →
      store ⟨parentIds, .metafile id⟩ = some (.metafile stored) ∨
        (stored.ancestorIds = parentIds ∧ stored.id = id)) :
    Changes table store final tableVersion where
  inNamespace := by
    rintro ⟨mapped, isThere⟩
    constructor
    · rw [frame _ notRoot.symm]
      exact mapped
    · rw [frame _ notRoot.symm]
      exact isThere
  others := by
    intro other isOther
    by_cases isIds : parentIds = table.ids
    · exact others isIds other isOther
    · exact frame _ (Ne.symm isIds)
  streams := by
    intro recorded other id stored isStored
    by_cases isIds : parentIds = table.streamIds other
    · rw [← isIds] at isStored ⊢
      rcases streams other id stored isIds isStored with isOld | isNew
      · rw [isIds] at isOld ⊢
        exact recorded other id stored isOld
      · exact isNew
    · rw [frame _ (Ne.symm isIds)] at isStored
      exact recorded other id stored isStored

theorem update_frame {store final : LiveStore} {parentIds : List String} {entry : RevisionEntry}
    {content : Option RevisionContent}
    (isFinal : final = Function.update store ⟨parentIds, entry⟩ content) (dir : RevisionDir)
    (isOther : dir.parentIds ≠ parentIds) : final dir = store dir := by
  rw [isFinal]
  apply Function.update_of_ne
  rintro rfl
  exact isOther rfl

theorem ObjectChange.frame {store final : LiveStore} {parentIds : List String}
    {formerId newId : String} {formerName : Option LocatorName} {newMetafile : Option Metafile}
    (change : ObjectChange store final parentIds formerId formerName newId newMetafile)
    (dir : RevisionDir) (isOther : dir.parentIds ≠ parentIds) : final dir = store dir := by
  rcases dir with ⟨parents, id | name⟩
  · exact change.otherObjects parents id (fun same => isOther same.1) fun same => isOther same.1
  · exact change.otherMappings parents name (fun same => isOther same.1) fun same => isOther same.1

@[simp] theorem writtenMetafile_ancestorIds (parentIds : List String) (metafile : Metafile) :
    (writtenMetafile parentIds metafile).ancestorIds = parentIds := by
  rcases writtenMetafile_eq parentIds metafile with ⟨parents, isWritten⟩
  rw [isWritten]
  rfl

@[simp] theorem writtenMetafile_id (parentIds : List String) (metafile : Metafile) :
    (writtenMetafile parentIds metafile).id = metafile.id := by
  rcases writtenMetafile_eq parentIds metafile with ⟨parents, isWritten⟩
  rw [isWritten]
  rfl

/-- A metafile with the name and the identifier of the table. -/
theorem TablePath.id_eq {metafile : Metafile}
    (isName : metafile.locator.name = .tableName table.tableName)
    (isId : metafile.uuid = some table.tableId) : metafile.id = table.tableId := by
  simp [Metafile.id, isName, LocatorName.immutableId, isId, nonEmpty_some table.hasId]

theorem TablePath.isTable_written {metafile : Metafile}
    (isName : metafile.locator.name = .tableName table.tableName)
    (isId : metafile.uuid = some table.tableId) :
    table.IsTable (writtenMetafile [table.namespaceId] metafile) := by
  rcases writtenMetafile_eq [table.namespaceId] metafile with ⟨parents, isWritten⟩
  rw [isWritten]
  exact ⟨isName, isId, rfl⟩

/-- A write of the table changes nothing below it. -/
theorem changes_table {store final : LiveStore}
    (frame : ∀ dir, dir.parentIds ≠ [table.namespaceId] → final dir = store dir)
    (tableVersion : String) :
    Changes table store final tableVersion ∧
      ∀ other, final (table.versionDir other) = store (table.versionDir other) := by
  have notIds : [table.namespaceId] ≠ table.ids := by simp [TablePath.ids]
  have notStreams : ∀ other, [table.namespaceId] ≠ table.streamIds other := by
    simp [TablePath.streamIds]
  refine ⟨changes_of_frame (by simp) frame (fun isIds => absurd isIds notIds)
    (fun other _ _ isIds => absurd isIds (notStreams other)), ?_⟩
  intro other
  exact frame _ notIds.symm

/-- An update of the table that keeps its name and identifier. -/
theorem updateTable_spec {active next : ActiveTransaction} (settled : active.Settled)
    {stored newTable : Metafile} (holds : table.Holds active.catalog.live (some stored))
    {parents : List LocatorName} {result : ActiveTransaction.StepResult}
    {sameClass : (stored.withParents parents).metafileClass = newTable.metafileClass}
    (sameLocator : newTable.locator = (stored.withParents parents).locator)
    (sameId : newTable.uuid = stored.uuid)
    (sameAncestors : newTable.ancestorIds = stored.ancestorIds)
    (steps : active.step (.update (stored.withParents parents) newTable sameClass) =
      (next, .ok result))
    (bounded : ∀ file ∈ next.catalog.files, file.info.revision ≤ maxRevisionNumber)
    (tableVersion : String) :
    next.Settled ∧ next.transaction.id = active.transaction.id ∧
      Changes table active.catalog.live next.catalog.live tableVersion ∧
      (∀ other, next.catalog.live (table.versionDir other) =
        active.catalog.live (table.versionDir other)) ∧
      table.Holds next.catalog.live (some (writtenMetafile [table.namespaceId] newTable)) := by
  rcases holds with ⟨isMapped, isStored, isTable⟩
  rcases settled.step rfl steps bounded with
    ⟨parentIds, isRoot, nextSettled, sameTransaction, performs⟩
  have isAncestors : newTable.ancestorIds = [table.namespaceId] :=
    sameAncestors.trans isTable.ancestors
  obtain rfl : [table.namespaceId] = parentIds := Except.ok.inj
    ((ancestorIds_of_recorded isAncestors (by simp)).symm.trans isRoot)
  have isName : newTable.locator.name = .tableName table.tableName := by
    rw [sameLocator]
    exact isTable.isName
  have isId : newTable.uuid = some table.tableId := sameId.trans isTable.isId
  have oldId : (stored.withParents parents).id = table.tableId :=
    TablePath.id_eq isTable.isName isTable.isId
  have noAlias : ∀ metafile : Metafile,
      metafile.locator.name = .tableName table.tableName → metafile.locatorAlias = none := by
    intro metafile isTableName
    unfold Metafile.locatorAlias
    rw [isTableName]
    split <;> rfl
  rw [performs_update sameLocator
    ((noAlias _ isName).trans (noAlias (stored.withParents parents) isTable.isName).symm)
    ((TablePath.id_eq isName isId).trans oldId.symm), oldId] at performs
  have isFinal : next.catalog.live = Function.update active.catalog.live table.dir
      (some (.metafile (writtenMetafile [table.namespaceId] newTable))) := performs.2
  rcases changes_table (update_frame isFinal) tableVersion with ⟨changes, versions⟩
  refine ⟨nextSettled, sameTransaction, changes, versions, ?_, ?_,
    TablePath.isTable_written isName isId⟩
  · rw [isFinal, Function.update_of_ne (by simp [TablePath.mapping, TablePath.dir])]
    exact isMapped
  · rw [isFinal, Function.update_self]

/-- Writing the table in a `create_table_version` call. -/
theorem writeTable_spec {active next : ActiveTransaction} (settled : active.Settled)
    (inNamespace : table.InNamespace active.catalog.live) {prevTable : Option Metafile}
    (holds : table.Holds active.catalog.live prevTable) {parents : List LocatorName}
    {request : TableVersionCreation} (isNamespace : request.namespaceName = table.namespaceName)
    (isName : request.tableName = table.tableName) {given : String}
    (returns : writeTable (prevTable.map (·.withParents parents))
      (request.newTable table.tableId (prevTable.map (·.withParents parents)) given) active =
        .ok () next)
    (bounded : ∀ file ∈ next.catalog.files, file.info.revision ≤ maxRevisionNumber)
    (tableVersion : String) :
    next.Settled ∧ next.transaction.id = active.transaction.id ∧
      Changes table active.catalog.live next.catalog.live tableVersion ∧
      (∀ other, next.catalog.live (table.versionDir other) =
        active.catalog.live (table.versionDir other)) ∧
      table.Holds next.catalog.live (some (writtenMetafile [table.namespaceId]
        (request.newTable table.tableId (prevTable.map (·.withParents parents)) given))) := by
  cases prevTable with
  | none =>
      rw [Option.map_none] at returns ⊢
      rcases stepOr_eq_ok returns with ⟨result, steps⟩
      rcases settled.step rfl steps bounded with ⟨parentIds, isRoot, nextSettled, sameId, performs⟩
      have isLocator : (request.newTable table.tableId none given).locator =
          ⟨[.namespaceName table.namespaceName], .tableName table.tableName⟩ := by
        rw [← table.tableLocatorAt_eq, ← isNamespace, ← isName]
        rfl
      have isTableName : (request.newTable table.tableId none given).locator.name =
          .tableName table.tableName := by rw [isLocator]
      have isRoot : active.catalog.ancestorIdsFrom (Catalog.readerOf active.transaction.id)
          (request.newTable table.tableId none given).locator.parents [] = .ok parentIds := isRoot
      rw [isLocator, TablePath.namespaceIds_eq settled.numbered settled.seesAll inNamespace]
        at isRoot
      obtain rfl : [table.namespaceId] = parentIds := Except.ok.inj isRoot
      have change := create_change performs
      rw [TablePath.id_eq isTableName rfl] at change
      have isMutable : (some (writtenMetafile [table.namespaceId]
          (request.newTable table.tableId none given))).bind Metafile.mutableName =
            some (.tableName table.tableName) := by
        refine (Metafile.mutableName_toSerializable _ _).trans ?_
        simp [Metafile.mutableName, isTableName, LocatorName.immutableId]
      rcases changes_table change.frame tableVersion with ⟨changes, versions⟩
      exact ⟨nextSettled, sameId, changes, versions, change.newMapping _ isMutable,
        change.newObject, TablePath.isTable_written isTableName rfl⟩
  | some stored =>
      rw [Option.map_some] at returns ⊢
      have sameClass : (stored.withParents parents).metafileClass =
          (request.newTable table.tableId
            (some (stored.withParents parents)) given).metafileClass :=
        rfl
      have sameLocator : (request.newTable table.tableId (some (stored.withParents parents))
          given).locator = (stored.withParents parents).locator := rfl
      have sameId : (request.newTable table.tableId (some (stored.withParents parents))
          given).uuid = stored.uuid := rfl
      have sameAncestors : (request.newTable table.tableId (some (stored.withParents parents))
          given).ancestorIds = stored.ancestorIds := rfl
      generalize request.newTable table.tableId (some (stored.withParents parents)) given =
        newTable at returns sameClass sameLocator sameId sameAncestors ⊢
      unfold writeTable at returns
      simp only [dif_pos sameClass] at returns
      rcases stepOr_eq_ok returns with ⟨result, steps⟩
      exact updateTable_spec settled holds sameLocator sameId sameAncestors steps bounded
        tableVersion

theorem TablePath.Holds.of_frame {store final : LiveStore} {parentIds : List String}
    {stored : Metafile} (holds : table.Holds store (some stored))
    (frame : ∀ dir, dir.parentIds ≠ parentIds → final dir = store dir)
    (isOther : parentIds ≠ [table.namespaceId]) : table.Holds final (some stored) := by
  rcases holds with ⟨isMapped, isStored, isTable⟩
  refine ⟨?_, ?_, isTable⟩
  · rw [frame _ isOther.symm]
    exact isMapped
  · rw [frame _ isOther.symm]
    exact isStored

/-- A version is created where there was none. -/
theorem createVersion_spec {active next : ActiveTransaction} (settled : active.Settled)
    (inNamespace : table.InNamespace active.catalog.live) {stored newVersion : Metafile}
    (holds : table.Holds active.catalog.live (some stored)) {tableVersion : String}
    (notEmpty : tableVersion ≠ "")
    (isLocator : newVersion.locator = ⟨table.names, .tableVersionName tableVersion⟩)
    (isNew : newVersion.ancestorIds = []) {result : ActiveTransaction.StepResult}
    (steps : active.step (.create newVersion) = (next, .ok result))
    (bounded : ∀ file ∈ next.catalog.files, file.info.revision ≤ maxRevisionNumber) :
    next.Settled ∧ next.transaction.id = active.transaction.id ∧
      Changes table active.catalog.live next.catalog.live tableVersion ∧
      active.catalog.live (table.versionDir tableVersion) = none ∧
      next.catalog.live (table.versionDir tableVersion) =
        some (.metafile (writtenMetafile table.ids newVersion)) ∧
      table.Holds next.catalog.live (some stored) := by
  rcases settled.step rfl steps bounded with ⟨parentIds, isRoot, nextSettled, sameId, performs⟩
  rw [destMetafile, Catalog.ancestorIds, if_pos isNew, isLocator] at isRoot
  have sameRoot : active.catalog.ancestorIdsFrom (Catalog.readerOf active.transaction.id)
      (table.names ++ []) [] = .ok parentIds := isRoot
  obtain rfl : table.ids = parentIds := Except.ok.inj
    (TablePath.tableIds_eq settled.numbered settled.seesAll inNamespace holds.1 sameRoot)
  have isImmutable : newVersion.locator.name.immutableId = some tableVersion := by
    simp [isLocator, LocatorName.immutableId, nonEmpty_some notEmpty]
  have noAlias : newVersion.locatorAlias = none := by
    simp [Metafile.locatorAlias, isLocator]
  rw [performs_create isImmutable noAlias] at performs
  rcases performs with ⟨isFree, isFinal⟩
  have frame := update_frame isFinal
  refine ⟨nextSettled, sameId, ?_, isFree, ?_, holds.of_frame frame (by simp [TablePath.ids])⟩
  · apply changes_of_frame (by simp [TablePath.ids]) frame
    · intro _ other isOther
      rw [isFinal, Function.update_of_ne (by simp [TablePath.versionDir, isOther])]
    · intro other _ _ isIds
      simp [TablePath.ids, TablePath.streamIds] at isIds
  · rw [isFinal, TablePath.versionDir, Function.update_self]

/-- The stream of a new version is created below it. -/
theorem createStream_spec {active next : ActiveTransaction} (settled : active.Settled)
    (inNamespace : table.InNamespace active.catalog.live) {stored newStream : Metafile}
    (holds : table.Holds active.catalog.live (some stored)) {tableVersion : String}
    (notEmpty : tableVersion ≠ "")
    (isBelow : newStream.locator.parents = table.names ++ [.tableVersionName tableVersion])
    (isNew : newStream.ancestorIds = []) {result : ActiveTransaction.StepResult}
    (steps : active.step (.create newStream) = (next, .ok result))
    (bounded : ∀ file ∈ next.catalog.files, file.info.revision ≤ maxRevisionNumber) :
    next.Settled ∧ Changes table active.catalog.live next.catalog.live tableVersion ∧
      (∀ other, next.catalog.live (table.versionDir other) =
        active.catalog.live (table.versionDir other)) ∧
      table.Holds next.catalog.live (some stored) := by
  rcases settled.step rfl steps bounded with ⟨parentIds, isRoot, nextSettled, _, performs⟩
  rw [destMetafile, Catalog.ancestorIds, if_pos isNew, isBelow] at isRoot
  have isRoot := TablePath.tableIds_eq settled.numbered settled.seesAll inNamespace holds.1 isRoot
  have isVersion : active.catalog.locatorToId (Catalog.readerOf active.transaction.id) table.ids
      (.tableVersionName tableVersion) = .ok (some tableVersion) := by
    simp [Catalog.locatorToId, LocatorName.immutableId, nonEmpty_some notEmpty, pure, Except.pure]
  rw [Catalog.ancestorIdsFrom_cons isVersion] at isRoot
  split at isRoot
  case isFalse => cases isRoot
  case isTrue =>
    obtain rfl : table.streamIds tableVersion = parentIds := Except.ok.inj isRoot
    have change := create_change performs
    refine ⟨nextSettled, ?_, ?_, holds.of_frame change.frame (by simp [TablePath.streamIds])⟩
    · apply changes_of_frame (by simp [TablePath.streamIds]) change.frame
      · intro isIds
        simp [TablePath.ids, TablePath.streamIds] at isIds
      · intro other id stream _ isStream
        by_cases isThis : id = newStream.id
        · right
          subst isThis
          rw [change.newObject] at isStream
          cases isStream
          exact ⟨writtenMetafile_ancestorIds _ _, writtenMetafile_id _ _⟩
        · left
          rw [← change.otherObjects _ id (fun same => isThis same.2) fun same => isThis same.2]
          exact isStream
    · intro other
      exact change.frame _ (by simp [TablePath.versionDir, TablePath.ids, TablePath.streamIds])

/-- What `create_table_version` does to the table and its versions. -/
structure Creates (characters : CharacterClasses) (table : TablePath) (store final : LiveStore)
    (prevTable : Option Metafile) (request : TableVersionCreation) (given tableVersion : String)
    (parents : List LocatorName) : Prop where
  isNew : newTableVersion characters (prevTable.map (·.withParents parents))
    request.tableVersion = .ok given
  isRestated : restateTableVersion characters given = .ok tableVersion
  changes : Changes table store final tableVersion
  wasFree : store (table.versionDir tableVersion) = none
  isVersion : final (table.versionDir tableVersion) = some (.metafile (writtenMetafile table.ids
    (request.newVersion (prevTable.map (·.withParents parents)) tableVersion)))
  isTable : table.Holds final (some (writtenMetafile [table.namespaceId]
    (request.newTable table.tableId (prevTable.map (·.withParents parents)) given)))

theorem createTableVersion_spec {catalog : Catalog} {txnId : TransactionId}
    {active : ActiveTransaction}
    (settled : ActiveTransaction.Settled ⟨Transaction.start txnId false [], catalog⟩)
    (inNamespace : table.InNamespace catalog.live) {prevTable : Option Metafile}
    (holds : table.Holds catalog.live prevTable) {request : TableVersionCreation}
    (isNamespace : request.namespaceName = table.namespaceName)
    (isName : request.tableName = table.tableName) {streamId : String}
    {value : Metafile × Metafile × Metafile}
    (returns : createTableVersion characters request table.tableId streamId
      ⟨Transaction.start txnId false [], catalog⟩ = .ok value active)
    (bounded : ∀ file ∈ active.catalog.files, file.info.revision ≤ maxRevisionNumber) :
    active.Settled ∧ ∃ given tableVersion parents, Creates characters table catalog.live
      active.catalog.live prevTable request given tableVersion parents := by
  unfold createTableVersion at returns
  rcases Procedure.bind_eq_ok.mp returns with ⟨isThere, first, isExists, afterExists⟩
  clear returns
  have firstWritten := (preserves_isThere _).of_ok isExists
  split at afterExists
  case isFalse => exact (Procedure.throw_ne_ok.mp afterExists).elim
  case isTrue =>
    rcases Procedure.bind_eq_ok.mp afterExists with ⟨_, second, isValid, afterValid⟩
    obtain ⟨_, rfl⟩ := ofExcept_eq_ok.mp isValid
    rcases Procedure.bind_eq_ok.mp afterValid with ⟨item, third, isLooked, afterLooked⟩
    clear afterExists afterValid
    rcases latest_eq_ok isLooked with ⟨isFound, secondWritten⟩
    have sameWritten := secondWritten.trans firstWritten
    have sameCatalog := ActiveTransaction.catalog_of_written sameWritten
    have sameFirst := ActiveTransaction.catalog_of_written firstWritten
    have sameFirstId := ActiveTransaction.id_of_written firstWritten
    simp only [Transaction.start] at sameCatalog sameFirst sameFirstId
    rw [sameFirst, sameFirstId, isNamespace, isName] at isFound
    rcases TablePath.found_table settled.numbered settled.seesAll inNamespace holds isFound with
      ⟨parents, rfl⟩
    rcases Procedure.bind_eq_ok.mp afterLooked with ⟨given, _, isGiven, afterGiven⟩
    obtain ⟨isNew, rfl⟩ := ofExcept_eq_ok.mp isGiven
    rcases Procedure.bind_eq_ok.mp afterGiven with ⟨tableVersion, _, isStated, afterStated⟩
    obtain ⟨isRestated, rfl⟩ := ofExcept_eq_ok.mp isStated
    rcases Procedure.bind_eq_ok.mp afterStated with ⟨_, fourth, isTable, afterTable⟩
    rcases Procedure.bind_eq_ok.mp afterTable with ⟨_, fifth, isVersion, afterVersion⟩
    rcases Procedure.bind_eq_ok.mp afterVersion with ⟨_, sixth, isStream, isReturned⟩
    obtain ⟨_, rfl⟩ := Procedure.pure_eq_ok.mp isReturned
    clear afterLooked afterGiven afterStated afterTable afterVersion isReturned isLooked
    rcases stepOr_eq_ok isVersion with ⟨_, versionSteps⟩
    rcases stepOr_eq_ok isStream with ⟨_, streamSteps⟩
    have fifthBounded := ActiveTransaction.bounded_of_step rfl streamSteps bounded
    have fourthBounded := ActiveTransaction.bounded_of_step rfl versionSteps fifthBounded
    have notEmpty := (versionNumber_restate isRestated).2
    have thirdSettled := settled.of_written sameWritten
    rw [← sameCatalog] at inNamespace holds
    rcases writeTable_spec thirdSettled inNamespace holds isNamespace isName isTable fourthBounded
      tableVersion with ⟨fourthSettled, _, tableChanges, tableVersions, fourthHolds⟩
    have isLocator : (request.newVersion (prevTable.map (·.withParents parents))
        tableVersion).locator = ⟨table.names, .tableVersionName tableVersion⟩ := by
      rw [← table.tableVersionLocatorAt_eq, ← isNamespace, ← isName]
      rfl
    rcases createVersion_spec fourthSettled (tableChanges.inNamespace inNamespace) fourthHolds
      notEmpty isLocator rfl versionSteps fifthBounded with
      ⟨fifthSettled, _, versionChanges, wasFree, isCreated, fifthHolds⟩
    have isBelow : (request.newStream tableVersion streamId).locator.parents =
        table.names ++ [.tableVersionName tableVersion] := by
      have isStreamLocator := table.streamLocatorAt_eq notEmpty (some streamId) (some "deltacat")
      rw [← isNamespace, ← isName] at isStreamLocator
      exact congrArg Locator.parents isStreamLocator
    have fifthNamespace := versionChanges.inNamespace (tableChanges.inNamespace inNamespace)
    rcases createStream_spec fifthSettled fifthNamespace fifthHolds notEmpty isBelow rfl
      streamSteps bounded with ⟨sixthSettled, streamChanges, streamVersions, sixthHolds⟩
    rw [tableVersions] at wasFree
    rw [← sameCatalog]
    exact ⟨sixthSettled, given, tableVersion, parents, isNew, isRestated,
      (tableChanges.trans versionChanges).trans streamChanges, wasFree,
      (streamVersions tableVersion).trans isCreated, sixthHolds⟩

/-- The versions of the table are stored under their own identifiers. -/
def VersionsRecorded (table : TablePath) (store : LiveStore) : Prop :=
  ∀ tableVersion stored, store (table.versionDir tableVersion) = some (.metafile stored) →
    stored.ancestorIds = table.ids ∧ stored.locator.name = .tableVersionName tableVersion ∧
      tableVersion ≠ ""

/-- What an update of a table version leaves as it is. -/
structure Revises (old new : Metafile) (lifecycleState : Option LifecycleState) : Prop where
  locator : new.locator = old.locator
  ancestors : new.ancestorIds = old.ancestorIds
  uuid : new.uuid = old.uuid
  commitState : new.state = old.state
  schemeId : new.partitionSchemeId = old.partitionSchemeId
  state : new.lifecycleState = (lifecycleState <|> old.lifecycleState)

theorem revisedTableVersion_eq_ok {readerTypes : String → Except Error (List String)}
    {request : TableVersionUpdate} {old new : Metafile}
    (isRevised : revisedTableVersion readerTypes request old = .ok new) :
    Revises old new request.lifecycleState := by
  unfold revisedTableVersion at isRevised
  rcases except_bind_eq_ok.mp isRevised with ⟨_, _, afterValid⟩
  rcases except_bind_eq_ok.mp afterValid with ⟨schemas, _, afterSchemas⟩
  rcases except_bind_eq_ok.mp afterSchemas with ⟨_, _, afterReaders⟩
  rcases except_bind_eq_ok.mp afterReaders with ⟨partitionSchemes, _, afterPartitions⟩
  rcases except_bind_eq_ok.mp afterPartitions with ⟨sortSchemes, _, isResult⟩
  cases isResult
  exact ⟨rfl, rfl, rfl, rfl, rfl, rfl⟩

/-- A version is updated in its place. -/
theorem updateVersion_spec {active next : ActiveTransaction} (settled : active.Settled)
    {table : TablePath} {stored old new : Metafile}
    (holds : table.Holds active.catalog.live (some stored)) {tableVersion : String}
    (notEmpty : tableVersion ≠ "") (recorded : VersionsRecorded table active.catalog.live)
    (isOld : active.catalog.live (table.versionDir tableVersion) = some (.metafile old))
    {parents : List LocatorName} {lifecycleState : Option LifecycleState}
    (revises : Revises (old.withParents parents) new lifecycleState)
    {sameClass : (old.withParents parents).metafileClass = new.metafileClass}
    {result : ActiveTransaction.StepResult}
    (steps : active.step (.update (old.withParents parents) new sameClass) = (next, .ok result))
    (bounded : ∀ file ∈ next.catalog.files, file.info.revision ≤ maxRevisionNumber) :
    next.Settled ∧ next.transaction.id = active.transaction.id ∧
      Changes table active.catalog.live next.catalog.live tableVersion ∧
      next.catalog.live (table.versionDir tableVersion) =
        some (.metafile (writtenMetafile table.ids new)) ∧
      table.Holds next.catalog.live (some stored) := by
  rcases recorded tableVersion old isOld with ⟨isAncestors, isName, _⟩
  rcases settled.step rfl steps bounded with ⟨parentIds, isRoot, nextSettled, sameId, performs⟩
  have newAncestors : new.ancestorIds = table.ids := revises.ancestors.trans isAncestors
  obtain rfl : table.ids = parentIds := Except.ok.inj
    ((ancestorIds_of_recorded newAncestors (by simp [TablePath.ids])).symm.trans isRoot)
  have isId : (old.withParents parents).id = tableVersion := by
    simp [Metafile.id, Metafile.withParents, isName, LocatorName.immutableId,
      nonEmpty_some notEmpty]
  have sameAlias : new.locatorAlias = (old.withParents parents).locatorAlias := by
    unfold Metafile.locatorAlias
    rw [revises.locator, revises.commitState, revises.schemeId]
  have newId : new.id = (old.withParents parents).id := by
    unfold Metafile.id
    rw [revises.locator, revises.uuid]
  rw [performs_update revises.locator sameAlias newId, isId] at performs
  rcases performs with ⟨_, isFinal⟩
  have frame := update_frame isFinal
  refine ⟨nextSettled, sameId, ?_, ?_, holds.of_frame frame (by simp [TablePath.ids])⟩
  · apply changes_of_frame (by simp [TablePath.ids]) frame
    · intro _ other isOther
      rw [isFinal, Function.update_of_ne (by simp [TablePath.versionDir, isOther])]
    · intro other _ _ isIds
      simp [TablePath.ids, TablePath.streamIds] at isIds
  · rw [isFinal, TablePath.versionDir, Function.update_self]

theorem updateStreamScheme_bounded {active next : ActiveTransaction}
    {request : TableVersionUpdate} {tableVersion : String} {value : Option Metafile}
    (returns : updateStreamScheme request tableVersion active = .ok value next)
    (bounded : ∀ file ∈ next.catalog.files, file.info.revision ≤ maxRevisionNumber) :
    ∀ file ∈ active.catalog.files, file.info.revision ≤ maxRevisionNumber := by
  unfold updateStreamScheme at returns
  cases isGiven : request.partitionScheme with
  | none =>
      rw [isGiven] at returns
      obtain ⟨_, rfl⟩ := Procedure.pure_eq_ok.mp returns
      exact bounded
  | some partitionScheme =>
      rw [isGiven] at returns
      rcases Procedure.bind_eq_ok.mp returns with ⟨found, middle, isLooked, afterLooked⟩
      have sameWritten := (preserves_getStream _ _ _).of_ok isLooked
      rw [← ActiveTransaction.catalog_of_written sameWritten]
      cases found with
      | none => exact (Procedure.throw_ne_ok.mp afterLooked).elim
      | some item =>
          rcases Procedure.bind_eq_ok.mp afterLooked with ⟨_, last, isUpdated, isReturned⟩
          obtain ⟨_, rfl⟩ := Procedure.pure_eq_ok.mp isReturned
          exact ActiveTransaction.bounded_of_step rfl (step_eq_ok.mp isUpdated) bounded

/-- Updating the stream of a version changes neither the table nor its versions. -/
theorem updateStreamScheme_spec {active next : ActiveTransaction} (settled : active.Settled)
    (inNamespace : table.InNamespace active.catalog.live) {stored : Metafile}
    (holds : table.Holds active.catalog.live (some stored)) {request : TableVersionUpdate}
    (isNamespace : request.namespaceName = table.namespaceName)
    (isName : request.tableName = table.tableName) {tableVersion : String}
    (notEmpty : tableVersion ≠ "") (recorded : StreamsRecorded table active.catalog.live)
    {value : Option Metafile}
    (returns : updateStreamScheme request tableVersion active = .ok value next)
    (bounded : ∀ file ∈ next.catalog.files, file.info.revision ≤ maxRevisionNumber) :
    next.Settled ∧ Changes table active.catalog.live next.catalog.live tableVersion ∧
      (∀ other, next.catalog.live (table.versionDir other) =
        active.catalog.live (table.versionDir other)) ∧
      table.Holds next.catalog.live (some stored) := by
  unfold updateStreamScheme at returns
  cases isGiven : request.partitionScheme with
  | none =>
      rw [isGiven] at returns
      obtain ⟨_, rfl⟩ := Procedure.pure_eq_ok.mp returns
      exact ⟨settled, ⟨id, fun _ _ => rfl, id⟩, fun _ => rfl, holds⟩
  | some partitionScheme =>
      rw [isGiven] at returns
      rcases Procedure.bind_eq_ok.mp returns with ⟨found, middle, isLooked, afterLooked⟩
      cases found with
      | none => exact (Procedure.throw_ne_ok.mp afterLooked).elim
      | some item =>
          rcases Procedure.bind_eq_ok.mp afterLooked with ⟨_, last, isUpdated, isReturned⟩
          obtain ⟨_, rfl⟩ := Procedure.pure_eq_ok.mp isReturned
          have steps := step_eq_ok.mp isUpdated
          unfold getStream at isLooked
          simp only [nonEmpty_some notEmpty] at isLooked
          rcases Procedure.bind_eq_ok.mp isLooked with ⟨_, same, isPure, isLatest⟩
          obtain ⟨rfl, rfl⟩ := Procedure.pure_eq_ok.mp isPure
          rcases latest_eq_ok isLatest with ⟨isFound, sameWritten⟩
          have isLocator := table.streamLocatorAt_eq notEmpty none (some "deltacat")
          rw [isNamespace, isName, isLocator] at isFound
          rcases TablePath.found_below settled.numbered settled.seesAll inNamespace holds rfl rfl
            isFound with ⟨_, parentIds, id, stream, parents, _, isRoot, isLive, rfl⟩
          have isVersion : active.catalog.locatorToId (Catalog.readerOf active.transaction.id)
              table.ids (.tableVersionName tableVersion) = .ok (some tableVersion) := by
            simp [Catalog.locatorToId, LocatorName.immutableId, nonEmpty_some notEmpty, pure,
              Except.pure]
          rw [Catalog.ancestorIdsFrom_cons isVersion] at isRoot
          split at isRoot
          case isFalse => cases isRoot
          case isTrue =>
            obtain rfl : table.streamIds tableVersion = parentIds := Except.ok.inj isRoot
            rcases recorded tableVersion id stream isLive with ⟨isAncestors, isId⟩
            have sameCatalog := ActiveTransaction.catalog_of_written sameWritten
            rcases (settled.of_written sameWritten).step rfl steps bounded with
              ⟨parentIds, isRoot, nextSettled, _, performs⟩
            have newAncestors : (withPartitionScheme (stream.withParents parents)
                partitionScheme).ancestorIds = table.streamIds tableVersion := isAncestors
            obtain rfl : table.streamIds tableVersion = parentIds := Except.ok.inj
              ((ancestorIds_of_recorded newAncestors (by simp [TablePath.streamIds])).symm.trans
                isRoot)
            have sameId : (stream.withParents parents).id = id := isId
            have newId : (withPartitionScheme (stream.withParents parents) partitionScheme).id =
                id := isId
            have sameLocator : (withPartitionScheme (stream.withParents parents)
                partitionScheme).locator = (stream.withParents parents).locator := rfl
            have sameAlias : (withPartitionScheme (stream.withParents parents)
                partitionScheme).locatorAlias = (stream.withParents parents).locatorAlias := rfl
            have writes := (performs_update sameLocator sameAlias
              (newId.trans sameId.symm)).mp performs
            rw [sameId, sameCatalog] at writes
            have frame := update_frame writes.2
            refine ⟨nextSettled, ?_, ?_, holds.of_frame frame (by simp [TablePath.streamIds])⟩
            · apply changes_of_frame (by simp [TablePath.streamIds]) frame
              · intro isIds
                simp [TablePath.ids, TablePath.streamIds] at isIds
              · intro other otherId otherStream _ isStream
                rw [writes.2] at isStream
                by_cases isThis : otherId = id
                · right
                  subst isThis
                  rw [Function.update_self] at isStream
                  cases isStream
                  exact ⟨writtenMetafile_ancestorIds _ _, (writtenMetafile_id _ _).trans newId⟩
                · left
                  rw [Function.update_of_ne (by simp [isThis])] at isStream
                  exact isStream
            · intro other
              exact frame _ (by simp [TablePath.versionDir, TablePath.ids, TablePath.streamIds])

/-- Whether `update_table_version` moves the pointer to the latest active version. -/
def MovesPointer (characters : CharacterClasses) (request : TableVersionUpdate)
    (stored old : Metafile) : Prop :=
  request.lifecycleState = some .active ∧ old.lifecycleState ≠ some .active ∧
    becomesLatestActive characters stored request.tableVersion = .ok true

/-- What `update_table_version` does to the table and its versions. -/
structure Updates (characters : CharacterClasses) (table : TablePath) (store final : LiveStore)
    (stored newTable old new : Metafile) (request : TableVersionUpdate) (tableVersion : String) :
    Prop where
  isRestated : restateTableVersion characters request.tableVersion = .ok tableVersion
  changes : Changes table store final tableVersion
  isOld : store (table.versionDir tableVersion) = some (.metafile old)
  isNew : final (table.versionDir tableVersion) = some (.metafile new)
  state : new.lifecycleState = (request.lifecycleState <|> old.lifecycleState)
  ancestors : new.ancestorIds = table.ids
  isName : new.locator.name = .tableVersionName tableVersion
  isTable : table.Holds final (some newTable)
  latest : newTable.latestTableVersion = stored.latestTableVersion
  decided : request.lifecycleState = some .active → old.lifecycleState ≠ some .active →
    ∃ becomes, becomesLatestActive characters stored request.tableVersion = .ok becomes
  moved : MovesPointer characters request stored old →
    newTable.latestActiveTableVersion = some request.tableVersion
  kept : ¬MovesPointer characters request stored old →
    newTable.latestActiveTableVersion = stored.latestActiveTableVersion

/-- Activating a version writes the table if the version becomes the latest active one. -/
theorem activateTableVersion_spec {active next : ActiveTransaction} (settled : active.Settled)
    {stored : Metafile} (holds : table.Holds active.catalog.live (some stored))
    {request : TableVersionUpdate} {old : Metafile} {parents oldParents : List LocatorName}
    {value : Option Metafile}
    (returns : activateTableVersion characters request (old.withParents oldParents)
      (some (stored.withParents parents)) active = .ok value next)
    (bounded : ∀ file ∈ next.catalog.files, file.info.revision ≤ maxRevisionNumber)
    (tableVersion : String) :
    next.Settled ∧ Changes table active.catalog.live next.catalog.live tableVersion ∧
      (∀ other, next.catalog.live (table.versionDir other) =
        active.catalog.live (table.versionDir other)) ∧
      ∃ newTable, table.Holds next.catalog.live (some newTable) ∧
        newTable.latestTableVersion = stored.latestTableVersion ∧
        (request.lifecycleState = some .active → old.lifecycleState ≠ some .active →
          ∃ becomes, becomesLatestActive characters stored request.tableVersion = .ok becomes) ∧
        (MovesPointer characters request stored old →
          newTable.latestActiveTableVersion = some request.tableVersion) ∧
        (¬MovesPointer characters request stored old →
          newTable.latestActiveTableVersion = stored.latestActiveTableVersion) := by
  have unchanged : (request.lifecycleState = some .active → old.lifecycleState ≠ some .active →
        ∃ becomes, becomesLatestActive characters stored request.tableVersion = .ok becomes) →
      ¬MovesPointer characters request stored old → active = next →
      next.Settled ∧ Changes table active.catalog.live next.catalog.live tableVersion ∧
      (∀ other, next.catalog.live (table.versionDir other) =
        active.catalog.live (table.versionDir other)) ∧
      ∃ newTable, table.Holds next.catalog.live (some newTable) ∧
        newTable.latestTableVersion = stored.latestTableVersion ∧
        (request.lifecycleState = some .active → old.lifecycleState ≠ some .active →
          ∃ becomes, becomesLatestActive characters stored request.tableVersion = .ok becomes) ∧
        (MovesPointer characters request stored old →
          newTable.latestActiveTableVersion = some request.tableVersion) ∧
        (¬MovesPointer characters request stored old →
          newTable.latestActiveTableVersion = stored.latestActiveTableVersion) := by
    rintro decided notMoved rfl
    exact ⟨settled, ⟨id, fun _ _ => rfl, id⟩, fun _ => rfl, stored, holds, rfl, decided,
      fun moved => absurd moved notMoved, fun _ => rfl⟩
  unfold activateTableVersion at returns
  split at returns
  case isFalse notActivated =>
    obtain ⟨_, rfl⟩ := Procedure.pure_eq_ok.mp returns
    exact unchanged (fun isActive wasOther => absurd ⟨isActive, wasOther⟩ notActivated)
      (fun moved => notActivated ⟨moved.1, moved.2.1⟩) rfl
  case isTrue isActivated =>
    rcases Procedure.bind_eq_ok.mp returns with ⟨becomes, middle, isBecomes, afterBecomes⟩
    obtain ⟨isDecided, rfl⟩ := ofExcept_eq_ok.mp isBecomes
    have sameBecomes : becomesLatestActive characters stored request.tableVersion = .ok becomes :=
      isDecided
    split at afterBecomes
    case isFalse notBecomes =>
      obtain ⟨_, rfl⟩ := Procedure.pure_eq_ok.mp afterBecomes
      apply unchanged (fun _ _ => ⟨_, sameBecomes⟩) _ rfl
      rintro ⟨_, _, becomesLatest⟩
      rw [sameBecomes] at becomesLatest
      exact notBecomes (Except.ok.inj becomesLatest)
    case isTrue isTrue_ =>
      rcases Procedure.bind_eq_ok.mp afterBecomes with ⟨_, last, isUpdated, isReturned⟩
      obtain ⟨_, rfl⟩ := Procedure.pure_eq_ok.mp isReturned
      have sameLocator : (withLatestActive (stored.withParents parents)
          request.tableVersion).locator = (stored.withParents parents).locator := rfl
      rcases updateTable_spec settled holds sameLocator rfl rfl (step_eq_ok.mp isUpdated) bounded
        tableVersion with ⟨nextSettled, _, changes, versions, nextHolds⟩
      rcases writtenMetafile_eq [table.namespaceId]
        (withLatestActive (stored.withParents parents) request.tableVersion) with ⟨_, isWritten⟩
      rw [isWritten] at nextHolds
      refine ⟨nextSettled, changes, versions, _, nextHolds, rfl, fun _ _ => ⟨_, sameBecomes⟩,
        fun _ => rfl, ?_⟩
      intro notMoved
      rw [isTrue_] at sameBecomes
      exact absurd ⟨isActivated.1, isActivated.2, sameBecomes⟩ notMoved

theorem updateTableVersion_spec {readerTypes : String → Except Error (List String)}
    {catalog : Catalog} {txnId : TransactionId} {active : ActiveTransaction}
    (settled : ActiveTransaction.Settled ⟨Transaction.start txnId false [], catalog⟩)
    (inNamespace : table.InNamespace catalog.live) {prevTable : Option Metafile}
    (holds : table.Holds catalog.live prevTable)
    (versionsRecorded : VersionsRecorded table catalog.live)
    (streamsRecorded : StreamsRecorded table catalog.live) {request : TableVersionUpdate}
    (isNamespace : request.namespaceName = table.namespaceName)
    (isName : request.tableName = table.tableName)
    {value : Option Metafile × Metafile × Option Metafile}
    (returns : updateTableVersion characters readerTypes request
      ⟨Transaction.start txnId false [], catalog⟩ = .ok value active)
    (bounded : ∀ file ∈ active.catalog.files, file.info.revision ≤ maxRevisionNumber) :
    active.Settled ∧ ∃ stored newTable old new tableVersion, prevTable = some stored ∧
      Updates characters table catalog.live active.catalog.live stored newTable old new request
        tableVersion := by
  unfold updateTableVersion at returns
  rcases Procedure.bind_eq_ok.mp returns with ⟨tableVersion, first, isStated, afterStated⟩
  obtain ⟨isRestated, rfl⟩ := ofExcept_eq_ok.mp isStated
  have notEmpty := (versionNumber_restate isRestated).2
  rcases Procedure.bind_eq_ok.mp afterStated with ⟨found, second, isLooked, afterLooked⟩
  clear returns afterStated isStated
  rcases latest_eq_ok isLooked with ⟨isFound, secondWritten⟩
  cases found with
  | none => exact (Procedure.throw_ne_ok.mp afterLooked).elim
  | some item =>
      rw [isNamespace, isName, table.tableVersionLocatorAt_eq] at isFound
      have isBelow : table.names = table.names ++ [] := (List.append_nil _).symm
      rcases TablePath.found_below settled.numbered settled.seesAll inNamespace holds rfl isBelow
        isFound with ⟨isCreated, parentIds, id, old, oldParents, isResolved, isRoot, isLive, rfl⟩
      obtain rfl : table.ids = parentIds := Except.ok.inj isRoot
      have isImmutable : (LocatorName.tableVersionName tableVersion).immutableId =
          some tableVersion := nonEmpty_some notEmpty
      obtain rfl := Catalog.resolve_immutable rfl isImmutable notEmpty isResolved
      rcases Option.isSome_iff_exists.mp isCreated with ⟨stored, rfl⟩
      rcases Procedure.bind_eq_ok.mp afterLooked with ⟨new, third, isNewly, afterNew⟩
      obtain ⟨isRevised, rfl⟩ := ofExcept_eq_ok.mp isNewly
      have revises := revisedTableVersion_eq_ok isRevised
      rcases Procedure.bind_eq_ok.mp afterNew with ⟨oldTable, fourth, isTable, afterTable⟩
      rcases latest_eq_ok isTable with ⟨isTableFound, fourthWritten⟩
      have secondCatalog := ActiveTransaction.catalog_of_written secondWritten
      have secondId := ActiveTransaction.id_of_written secondWritten
      simp only [Transaction.start] at secondCatalog secondId
      rw [secondCatalog, secondId, isNamespace, isName] at isTableFound
      rcases TablePath.found_table settled.numbered settled.seesAll inNamespace holds isTableFound
        with ⟨parents, rfl⟩
      have sameWritten := fourthWritten.trans secondWritten
      have sameCatalog := ActiveTransaction.catalog_of_written sameWritten
      simp only at sameCatalog
      have fourthSettled := settled.of_written sameWritten
      rw [← sameCatalog] at inNamespace holds versionsRecorded streamsRecorded isLive ⊢
      clear afterLooked afterNew isLooked isTable isNewly
      rcases Procedure.bind_eq_ok.mp afterTable with ⟨tableValue, fifth, isActivated, afterActive⟩
      split at afterActive
      case isFalse => exact (Procedure.throw_ne_ok.mp afterActive).elim
      case isTrue sameClass =>
        rcases Procedure.bind_eq_ok.mp afterActive with ⟨_, sixth, isVersion, afterVersion⟩
        rcases Procedure.bind_eq_ok.mp afterVersion with ⟨_, seventh, isStream, isReturned⟩
        obtain ⟨_, rfl⟩ := Procedure.pure_eq_ok.mp isReturned
        rcases stepOr_eq_ok isVersion with ⟨_, versionSteps⟩
        have sixthBounded : ∀ file ∈ sixth.catalog.files,
            file.info.revision ≤ maxRevisionNumber :=
          updateStreamScheme_bounded isStream bounded
        have fifthBounded := ActiveTransaction.bounded_of_step rfl versionSteps sixthBounded
        rcases activateTableVersion_spec fourthSettled holds isActivated fifthBounded id with
          ⟨fifthSettled, tableChanges, tableVersions, newTable, fifthHolds, latest, decided, moved,
            kept⟩
        have fifthRecorded : VersionsRecorded table fifth.catalog.live := by
          intro other version isVersion
          rw [tableVersions] at isVersion
          exact versionsRecorded other version isVersion
        have isFifth : fifth.catalog.live (table.versionDir id) = some (.metafile old) := by
          rw [tableVersions]
          exact isLive
        rcases updateVersion_spec fifthSettled fifthHolds notEmpty fifthRecorded isFifth revises
          versionSteps sixthBounded with
          ⟨sixthSettled, _, versionChanges, isUpdated, sixthHolds⟩
        have changes := tableChanges.trans versionChanges
        rcases updateStreamScheme_spec sixthSettled (changes.inNamespace inNamespace) sixthHolds
          isNamespace isName notEmpty (changes.streams streamsRecorded) isStream bounded with
          ⟨seventhSettled, streamChanges, streamVersions, seventhHolds⟩
        have isNew := (streamVersions id).trans isUpdated
        rcases writtenMetafile_eq table.ids new with ⟨newParents, isWritten⟩
        rw [isWritten] at isNew
        refine ⟨seventhSettled, stored, newTable, old, _, id, rfl, isRestated,
          changes.trans streamChanges, isLive, isNew, revises.state, rfl, ?_, seventhHolds, latest,
          decided, moved, kept⟩
        exact (congrArg Locator.name revises.locator).trans (versionsRecorded id old isLive).2.1

end Calls

end Deltacat.Storage
