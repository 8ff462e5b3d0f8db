import Deltacat.Library.Decimal
import Deltacat.Library.Delimiter
import Deltacat.Utils.Pyarrow

/-!
# What key strings tell apart

Rows are compared by a string: the texts of their primary key cells, joined with a
delimiter, or the SHA-1 digest of it. The digest is taken where it is required, to
assign rows to hash buckets, and where it saves memory.

A key string does not show where a text ends if the delimiter is in one of them, nor
whether an empty text comes from a null. Two rows have the same key string exactly if the
texts of their cells, split at the delimiter, are the same pieces (`pkHash_eq_iff`), and so
the strings tell all keys apart only for rows whose keys have different pieces
(`givesFaithfulKeys_iff`).
-/

namespace Deltacat.Compute.CompactorV2

open Deltacat.Library Deltacat.Utils

universe u

/-- What is used of Arrow and of `hashlib` to make key strings. -/
structure KeyHashing (Value : Type u) where
  /-- The cast of a cell to a string. -/
  stringCast : Value → String
  /-- The hexadecimal SHA-1 digest. -/
  sha1 : String → String
  /-- The memory that a column of strings takes. -/
  nbytes : List String → ℕ
  /-- `SHA1_HASHING_FOR_MEMORY_OPTIMIZATION_DISABLED`. -/
  sha1Disabled : Bool

def pkDelimiter : String := "L6kl7u5f"

def totalBytesInSha1Hash : ℕ := 20

variable {Column Value : Type u}

/-- The values in the primary key columns. -/
def keyOf (primaryKeys : List Column) (row : Row Column Value) : List (Option Value) :=
  primaryKeys.map row

/-- The joined texts of a key; a null has an empty text. -/
def pkHash (hashing : KeyHashing Value) (key : List (Option Value)) : String :=
  pkDelimiter.intercalate (key.map fun cell => cell.elim "" hashing.stringCast)

def isSha1Desired (hashing : KeyHashing Value) (hashColumns : List (List String)) : Bool :=
  let totalSize := (hashColumns.map hashing.nbytes).sum
  let totalLen := (hashColumns.map List.length).sum
  if hashing.sha1Disabled then false else totalSize > totalBytesInSha1Hash * totalLen

/-- The string of a key; all tables get digests if those of any of them are long. -/
def hashString (hashing : KeyHashing Value) (tables : List (Table Column Value))
    (primaryKeys : List Column) (requiresHash : Bool) (key : List (Option Value)) : String :=
  let hashColumns := tables.map fun table =>
    table.rows.map fun row => pkHash hashing (keyOf primaryKeys row)
  let canSha1 := requiresHash || isSha1Desired hashing hashColumns
  if canSha1 then hashing.sha1 (pkHash hashing key) else pkHash hashing key

/-- The strings that the tables get for their keys, given at least one primary key. -/
def generatePkHashColumn [DecidableEq Column] (hashing : KeyHashing Value)
    (tables : List (Table Column Value)) (primaryKeys : List Column) (requiresHash : Bool) :
    Except Error (List (Option Value) → String) :=
  if ∀ table ∈ tables, ∀ pkName ∈ primaryKeys, pkName ∈ table.columnNames then
    .ok (hashString hashing tables primaryKeys requiresHash)
  else .error .keyError

variable {hashing : KeyHashing Value}

/-- `generate_pk_hash_column`; rows without primary keys get random identifiers. -/
def keyStrings [DecidableEq Column] (hashing : KeyHashing Value) (uuids : ℕ → ℕ → String)
    (tables : List (Table Column Value)) (primaryKeys : List Column) (requiresHash : Bool) :
    Except Error (List (List String)) :=
  if primaryKeys = [] then
    .ok (tables.mapIdx fun index table => (List.range table.rows.length).map (uuids index))
  else
    match generatePkHashColumn hashing tables primaryKeys requiresHash with
    | .error error => .error error
    | .ok hashColumn => .ok (tables.map fun table =>
        table.rows.map fun row => hashColumn (keyOf primaryKeys row))

/-- The rows of all tables. -/
def allRows (tables : List (Table Column Value)) : List (Row Column Value) :=
  tables.flatMap (·.rows)

/-- Rows have the same string exactly if they have the same key. -/
structure FaithfulKeys (tables : List (Table Column Value)) (primaryKeys : List Column)
    (strings : List (List String)) : Prop where
  lengths : strings.map List.length = tables.map (·.rows.length)
  same_iff : ∀ (left right : ℕ) (leftRow rightRow : Row Column Value)
    (leftString rightString : String),
    (allRows tables)[left]? = some leftRow → (allRows tables)[right]? = some rightRow →
    strings.flatten[left]? = some leftString → strings.flatten[right]? = some rightString →
    (leftString = rightString ↔ ∀ column ∈ primaryKeys, leftRow column = rightRow column)

/-- The texts of the cells of a key. -/
def keyTexts (hashing : KeyHashing Value) (key : List (Option Value)) : List (List Char) :=
  key.map fun cell => (cell.elim "" hashing.stringCast).toList

/-- The pieces that the delimiter splits the texts of a key into. -/
def keyPieces (hashing : KeyHashing Value) (key : List (Option Value)) : List (List Char) :=
  (keyTexts hashing key).flatMap (split pkDelimiter.toList)

/-- Rows with different keys have different pieces, and there is a key if there are two rows. -/
structure KeysApart (hashing : KeyHashing Value) (tables : List (Table Column Value))
    (primaryKeys : List Column) : Prop where
  keyed : primaryKeys = [] → (allRows tables).length ≤ 1
  pieces : ∀ left ∈ allRows tables, ∀ right ∈ allRows tables,
    keyPieces hashing (keyOf primaryKeys left) = keyPieces hashing (keyOf primaryKeys right) →
      ∀ column ∈ primaryKeys, left column = right column

theorem delimiter_nonempty : pkDelimiter.toList ≠ [] := by decide

theorem delimiter_borderFree : BorderFree pkDelimiter.toList := by
  unfold BorderFree
  decide

/-- Key strings are equal exactly if the keys have the same pieces. -/
theorem pkHash_eq_iff {left right : List (Option Value)} (leftSome : left ≠ [])
    (rightSome : right ≠ []) :
    pkHash hashing left = pkHash hashing right ↔
      keyPieces hashing left = keyPieces hashing right := by
  have toList_pkHash : ∀ key : List (Option Value),
      (pkHash hashing key).toList = pkDelimiter.toList.intercalate (keyTexts hashing key) := by
    intro key
    rw [pkHash, String.toList_intercalate, List.map_map]
    rfl
  rw [← String.toList_inj, toList_pkHash, toList_pkHash]
  exact intercalate_eq_iff delimiter_nonempty delimiter_borderFree
    (by simpa [keyTexts] using leftSome) (by simpa [keyTexts] using rightSome)

theorem keyOf_eq_iff {primaryKeys : List Column} {left right : Row Column Value} :
    keyOf primaryKeys left = keyOf primaryKeys right ↔
      ∀ column ∈ primaryKeys, left column = right column :=
  List.map_inj_left

variable {uuids : ℕ → ℕ → String} {tables : List (Table Column Value)}
  {primaryKeys : List Column} {requiresHash : Bool}

/-- With an injective digest, the strings compare as the joined texts do. -/
theorem hashString_eq_iff (sha1Injective : Function.Injective hashing.sha1)
    {left right : List (Option Value)} :
    hashString hashing tables primaryKeys requiresHash left =
        hashString hashing tables primaryKeys requiresHash right ↔
      pkHash hashing left = pkHash hashing right := by
  simp only [hashString]
  split
  · exact sha1Injective.eq_iff
  · exact Iff.rfl

/-- The strings with primary keys. -/
theorem keyStrings_of_keys [DecidableEq Column] (hasKeys : primaryKeys ≠ [])
    (hasColumns : ∀ table ∈ tables, ∀ column ∈ primaryKeys, column ∈ table.columnNames) :
    keyStrings hashing uuids tables primaryKeys requiresHash =
      .ok (tables.map fun table => table.rows.map fun row =>
        hashString hashing tables primaryKeys requiresHash (keyOf primaryKeys row)) := by
  rw [keyStrings, if_neg hasKeys, generatePkHashColumn, if_pos hasColumns]

theorem faithfulKeys_of_keys_iff (sha1Injective : Function.Injective hashing.sha1)
    (hasKeys : primaryKeys ≠ []) :
    FaithfulKeys tables primaryKeys (tables.map fun table => table.rows.map fun row =>
        hashString hashing tables primaryKeys requiresHash (keyOf primaryKeys row)) ↔
      KeysApart hashing tables primaryKeys := by
  have isFlat : (tables.map fun table => table.rows.map fun row =>
      hashString hashing tables primaryKeys requiresHash (keyOf primaryKeys row)).flatten =
        (allRows tables).map fun row =>
          hashString hashing tables primaryKeys requiresHash (keyOf primaryKeys row) := by
    rw [allRows, List.map_flatMap]
    rfl
  have keySome : ∀ row : Row Column Value, keyOf primaryKeys row ≠ [] := by
    intro row
    simpa [keyOf] using hasKeys
  have sameString : ∀ left right : Row Column Value,
      hashString hashing tables primaryKeys requiresHash (keyOf primaryKeys left) =
          hashString hashing tables primaryKeys requiresHash (keyOf primaryKeys right) ↔
        keyPieces hashing (keyOf primaryKeys left) =
          keyPieces hashing (keyOf primaryKeys right) := by
    intro left right
    rw [hashString_eq_iff sha1Injective, pkHash_eq_iff (keySome left) (keySome right)]
  constructor
  · intro faithful
    refine ⟨fun noKeys => absurd noKeys hasKeys, ?_⟩
    intro left leftMem right rightMem samePieces
    rcases List.getElem?_of_mem leftMem with ⟨leftIndex, isLeft⟩
    rcases List.getElem?_of_mem rightMem with ⟨rightIndex, isRight⟩
    apply (faithful.same_iff leftIndex rightIndex left right _ _ isLeft isRight
      (by rw [isFlat, List.getElem?_map, isLeft]; rfl)
      (by rw [isFlat, List.getElem?_map, isRight]; rfl)).mp
    exact (sameString left right).mpr samePieces
  · intro apart
    refine ⟨by simp [Function.comp_def], ?_⟩
    intro leftIndex rightIndex left right leftString rightString isLeft isRight isLeftString
      isRightString
    rw [isFlat, List.getElem?_map, isLeft] at isLeftString
    rw [isFlat, List.getElem?_map, isRight] at isRightString
    obtain rfl := Option.some.inj isLeftString
    obtain rfl := Option.some.inj isRightString
    rw [sameString]
    constructor
    · exact apart.pieces left (List.mem_of_getElem? isLeft) right (List.mem_of_getElem? isRight)
    · intro sameKey
      rw [keyOf_eq_iff.mpr sameKey]

/-- The random identifiers of all rows are different. -/
theorem nodup_flatten_uuids (tables : List (Table Column Value))
    (drawn : ∀ table row otherTable otherRow,
      uuids table row = uuids otherTable otherRow → table = otherTable ∧ row = otherRow) :
    (tables.mapIdx fun index table =>
      (List.range table.rows.length).map (uuids index)).flatten.Nodup := by
  rw [List.nodup_flatten]
  constructor
  · intro strings stringsMem
    rcases List.mem_mapIdx.mp stringsMem with ⟨index, _, rfl⟩
    exact List.nodup_range.map fun _ _ same => (drawn _ _ _ _ same).2
  · rw [List.pairwise_iff_getElem]
    intro left right leftBound rightBound isBefore uuid leftMem rightMem
    simp only [List.getElem_mapIdx, List.mem_map] at leftMem rightMem
    rcases leftMem with ⟨leftRow, _, isLeft⟩
    rcases rightMem with ⟨rightRow, _, isRight⟩
    exact absurd (drawn _ _ _ _ (isLeft.trans isRight.symm)).1 isBefore.ne

/-- Without primary keys no two rows have the same string, and all have the same key. -/
theorem faithfulKeys_of_uuids_iff (drawn : ∀ table row otherTable otherRow,
      uuids table row = uuids otherTable otherRow → table = otherTable ∧ row = otherRow) :
    FaithfulKeys tables [] (tables.mapIdx fun index table =>
        (List.range table.rows.length).map (uuids index)) ↔
      KeysApart hashing tables [] := by
  have nodup := nodup_flatten_uuids tables drawn
  have lengths : (tables.mapIdx fun index table =>
      (List.range table.rows.length).map (uuids index)).map List.length =
        tables.map (·.rows.length) := by
    apply List.ext_getElem <;> simp
  have total : (tables.mapIdx fun index table =>
      (List.range table.rows.length).map (uuids index)).flatten.length =
        (allRows tables).length := by
    rw [List.length_flatten, lengths, allRows, List.length_flatMap]
  generalize tables.mapIdx (fun index table =>
    (List.range table.rows.length).map (uuids index)) = strings at *
  constructor
  · intro faithful
    refine ⟨fun _ => ?_, by simp⟩
    by_contra areMany
    have isFirst : 0 < strings.flatten.length := by omega
    have isSecond : 1 < strings.flatten.length := by omega
    have same := (faithful.same_iff 0 1 _ _ _ _
      (List.getElem?_eq_getElem (total ▸ isFirst)) (List.getElem?_eq_getElem (total ▸ isSecond))
      (List.getElem?_eq_getElem isFirst) (List.getElem?_eq_getElem isSecond)).mpr (by simp)
    exact absurd (nodup.getElem_inj_iff.mp same) (by omega)
  · intro apart
    refine ⟨lengths, ?_⟩
    intro left right leftRow rightRow leftString rightString isLeft isRight isLeftString
      isRightString
    have atMostOne := apart.keyed rfl
    have leftBound := (List.getElem?_eq_some_iff.mp isLeft).1
    have rightBound := (List.getElem?_eq_some_iff.mp isRight).1
    obtain rfl : left = right := by omega
    rw [isLeftString] at isRightString
    simp [Option.some.inj isRightString]

def GivesFaithfulKeys [DecidableEq Column] (hashing : KeyHashing Value) (uuids : ℕ → ℕ → String)
    (tables : List (Table Column Value)) (primaryKeys : List Column) (requiresHash : Bool) : Prop :=
  ∃ strings, keyStrings hashing uuids tables primaryKeys requiresHash = .ok strings ∧
    FaithfulKeys tables primaryKeys strings

/-- The key strings are faithful exactly if rows with different keys have different pieces. -/
theorem givesFaithfulKeys_iff [DecidableEq Column] (hashing : KeyHashing Value)
    (uuids : ℕ → ℕ → String)
    (tables : List (Table Column Value)) (primaryKeys : List Column) (requiresHash : Bool)
    (sha1Injective : Function.Injective hashing.sha1)
    (drawn : ∀ table row otherTable otherRow,
      uuids table row = uuids otherTable otherRow → table = otherTable ∧ row = otherRow)
    (hasColumns : ∀ table ∈ tables, ∀ column ∈ primaryKeys, column ∈ table.columnNames) :
    GivesFaithfulKeys hashing uuids tables primaryKeys requiresHash ↔
      KeysApart hashing tables primaryKeys := by
  have ofStrings : ∀ strings, keyStrings hashing uuids tables primaryKeys requiresHash =
      .ok strings → (GivesFaithfulKeys hashing uuids tables primaryKeys requiresHash ↔
        FaithfulKeys tables primaryKeys strings) := by
    intro strings isOk
    constructor
    · rintro ⟨given, isGiven, faithful⟩
      rw [isOk] at isGiven
      cases isGiven
      exact faithful
    · exact fun faithful => ⟨strings, isOk, faithful⟩
  by_cases hasKeys : primaryKeys = []
  · subst hasKeys
    rw [ofStrings _ (if_pos rfl)]
    exact faithfulKeys_of_uuids_iff drawn
  · rw [ofStrings _ (keyStrings_of_keys hasKeys hasColumns)]
    exact faithfulKeys_of_keys_iff sha1Injective hasKeys

section Plain

/-- Texts without the delimiter are their own pieces. -/
theorem keyPieces_of_free {key : List (Option Value)}
    (free : ∀ text ∈ keyTexts hashing key, Free pkDelimiter.toList text) :
    keyPieces hashing key = keyTexts hashing key := by
  unfold keyPieces
  generalize keyTexts hashing key = texts at free
  induction texts with
  | nil => rfl
  | cons text texts ih =>
      rw [List.forall_mem_cons] at free
      rw [List.flatMap_cons, split_of_free delimiter_nonempty delimiter_borderFree free.1,
        ih free.2]
      rfl

/-- Keys without nulls whose texts do not have the delimiter in them. -/
structure Plain (hashing : KeyHashing Value) (tables : List (Table Column Value))
    (primaryKeys : List Column) : Prop where
  nonNull : ∀ row ∈ allRows tables, ∀ column ∈ primaryKeys, row column ≠ none
  free : ∀ row ∈ allRows tables, ∀ text ∈ keyTexts hashing (keyOf primaryKeys row),
    Free pkDelimiter.toList text

/-- The texts tell the values of a column apart, so that plain keys are told apart. -/
theorem keysApart_of_plain (castInjective : Function.Injective hashing.stringCast)
    (hasKeys : primaryKeys ≠ []) (plain : Plain hashing tables primaryKeys) :
    KeysApart hashing tables primaryKeys := by
  refine ⟨fun noKeys => absurd noKeys hasKeys, ?_⟩
  intro left leftMem right rightMem samePieces column columnMem
  rw [keyPieces_of_free (plain.free left leftMem), keyPieces_of_free (plain.free right rightMem),
    keyTexts, keyTexts, keyOf, keyOf, List.map_map, List.map_map] at samePieces
  have sameText := List.map_inj_left.mp samePieces column columnMem
  rcases Option.ne_none_iff_exists'.mp (plain.nonNull left leftMem column columnMem) with
    ⟨leftValue, isLeft⟩
  rcases Option.ne_none_iff_exists'.mp (plain.nonNull right rightMem column columnMem) with
    ⟨rightValue, isRight⟩
  simp only [Function.comp_apply, isLeft, isRight, Option.elim_some] at sameText
  rw [isLeft, isRight, castInjective (String.toList_injective sameText)]

end Plain

section Examples

/-- Texts are keys themselves. -/
def textHashing : KeyHashing String := ⟨id, id, fun _ => 0, true⟩

/-- A table with one row for each pair of cells. -/
def pairTable (cells : List (Option String × Option String)) : Table Bool String where
  columnNames := [false, true]
  rows := cells.map fun pair column => if column then pair.2 else pair.1
  absent := by
    intro row _ column isAbsent
    cases column <;> simp at isAbsent

def drawnUuids (table row : ℕ) : String := toString (Nat.pair table row)

theorem drawnUuids_injective : ∀ table row otherTable otherRow,
    drawnUuids table row = drawnUuids otherTable otherRow →
      table = otherTable ∧ row = otherRow := by
  intro table row otherTable otherRow same
  exact Nat.pair_eq_pair.mp (toString_injective same)

theorem givesFaithfulKeys_pairs :
    GivesFaithfulKeys textHashing drawnUuids
      [pairTable [(some "a", some "b"), (some "a", some "c")]] [false, true] false := by
  apply (givesFaithfulKeys_iff textHashing drawnUuids
    [pairTable [(some "a", some "b"), (some "a", some "c")]] [false, true] false
    Function.injective_id drawnUuids_injective (by decide)).mpr
  apply keysApart_of_plain Function.injective_id (by decide)
  constructor
  · decide
  · unfold Free
    decide

/-- Rows that the strings do not tell apart although they differ in the first column. -/
theorem not_givesFaithfulKeys_of_same {left right : Option String × Option String}
    (isOther : left.1 ≠ right.1)
    (same : pkHash textHashing [left.1, left.2] = pkHash textHashing [right.1, right.2]) :
    ¬GivesFaithfulKeys textHashing drawnUuids [pairTable [left, right]] [false, true] false := by
  rintro ⟨strings, isOk, faithful⟩
  rw [keyStrings_of_keys (by decide) (by simp [pairTable])] at isOk
  cases isOk
  apply isOther
  exact (faithful.same_iff 0 1 _ _ _ _ rfl rfl rfl rfl).mp same false (by simp)

/-- A null and an empty text, and the delimiter within a text. -/
theorem not_givesFaithfulKeys :
    ¬GivesFaithfulKeys textHashing drawnUuids
        [pairTable [(none, some "b"), (some "", some "b")]] [false, true] false ∧
      ¬GivesFaithfulKeys textHashing drawnUuids
        [pairTable [(some "aL6kl7u5fb", some "c"), (some "a", some "bL6kl7u5fc")]]
        [false, true] false := by
  constructor
  · exact not_givesFaithfulKeys_of_same (by decide) rfl
  · apply not_givesFaithfulKeys_of_same (by decide)
    decide

end Examples

end Deltacat.Compute.CompactorV2
