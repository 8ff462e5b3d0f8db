import Deltacat.Compute.CompactorV2.EqualityDeletes

/-!
# Which rows equality deletes should remove

A delete file names the rows that agree with one of its rows in all delete columns.
`EqualityDeleteStrategy` removes others as well. It leaves out the delete columns that
the table does not have, so that a row is removed for agreeing in the rest of them, and
where a key is null it compares texts, which may coincide for different cells. And a
delete file that is not in the object store is never applied. Without these mistakes the
right rows remain (`applyManyDeletes_exact_iff`).

What is left after each file is followed on lists of rows (`rowsLeft`), since the order
in which a join returns its rows is not specified.
-/

namespace Deltacat.Compute.CompactorV2

open Deltacat.Library Deltacat.Utils

section Mistakes

variable {Value : Type} [DecidableEq Value]

namespace DeleteFileEnvelope

/-- The row agrees with a row of the delete file in all delete columns, which its table has. -/
def Names (envelope : DeleteFileEnvelope Value) (columnNames : List String)
    (row : Row String Value) : Prop :=
  envelope.deleteColumns ⊆ columnNames ∧
    AgreesWith envelope.table.rows envelope.deleteColumns row

instance (envelope : DeleteFileEnvelope Value) (columnNames : List String) :
    DecidablePred (envelope.Names columnNames) :=
  fun _ => inferInstanceAs (Decidable (_ ∧ _))

/-- A key of the table's rows or of the delete file is null. -/
def HasNullKey (envelope : DeleteFileEnvelope Value) (columnNames : List String)
    (rows : List (Row String Value)) : Prop :=
  ∃ column ∈ validColumns columnNames envelope.deleteColumns,
    ∃ row ∈ rows ++ envelope.table.rows, row column = none

instance (envelope : DeleteFileEnvelope Value) (columnNames : List String)
    (rows : List (Row String Value)) : Decidable (envelope.HasNullKey columnNames rows) :=
  inferInstanceAs (Decidable (∃ column ∈ validColumns columnNames envelope.deleteColumns,
    ∃ row ∈ rows ++ envelope.table.rows, row column = none))

/-- The row has the same key texts as a row of the delete file. -/
def HasTextsOf (arrow : ArrowJoins Value) (envelope : DeleteFileEnvelope Value)
    (columnNames : List String) (row : Row String Value) : Prop :=
  columnTexts arrow (validColumns columnNames envelope.deleteColumns) row ∈
    envelope.table.rows.map
      (columnTexts arrow (validColumns columnNames envelope.deleteColumns))

instance (arrow : ArrowJoins Value) (envelope : DeleteFileEnvelope Value)
    (columnNames : List String) : DecidablePred (envelope.HasTextsOf arrow columnNames) :=
  fun _ => inferInstanceAs (Decidable (_ ∈ _))

/-- The row is taken for one of the delete file's because keys are compared by their texts. -/
def Confuses (arrow : ArrowJoins Value) (envelope : DeleteFileEnvelope Value)
    (columnNames : List String) (rows : List (Row String Value)) (row : Row String Value) : Prop :=
  envelope.HasNullKey columnNames rows ∧ envelope.HasTextsOf arrow columnNames row ∧
    ¬AgreesWith envelope.table.rows (validColumns columnNames envelope.deleteColumns) row

instance (arrow : ArrowJoins Value) (envelope : DeleteFileEnvelope Value)
    (columnNames : List String) (rows : List (Row String Value)) :
    DecidablePred (envelope.Confuses arrow columnNames rows) :=
  fun _ => inferInstanceAs (Decidable (_ ∧ _ ∧ _))

/-- The row only agrees in the delete columns that the table has, and it lacks others. -/
def Widens (envelope : DeleteFileEnvelope Value) (columnNames : List String)
    (row : Row String Value) : Prop :=
  envelope.Deletes columnNames row ∧ ¬envelope.deleteColumns ⊆ columnNames

/-- The rows that applying the delete file takes out of the given ones. -/
def Removes (arrow : ArrowJoins Value) (envelope : DeleteFileEnvelope Value)
    (columnNames : List String) (rows : List (Row String Value)) (row : Row String Value) : Prop :=
  envelope.Deletes columnNames row ∨
    envelope.isReference ∧ envelope.Confuses arrow columnNames rows row

instance (arrow : ArrowJoins Value) (envelope : DeleteFileEnvelope Value)
    (columnNames : List String) (rows : List (Row String Value)) :
    DecidablePred (envelope.Removes arrow columnNames rows) :=
  fun _ => inferInstanceAs (Decidable (_ ∨ _ ∧ _))

end DeleteFileEnvelope

/-- The rows that are left after the delete files are applied one after another. -/
def rowsLeft (arrow : ArrowJoins Value) (columnNames : List String) :
    List (Row String Value) → List (DeleteFileEnvelope Value) → List (Row String Value)
  | rows, [] => rows
  | rows, envelope :: envelopes =>
      rowsLeft arrow columnNames
        (rows.filter (¬envelope.Removes arrow columnNames rows ·)) envelopes

/-- Each row that a file removes by mistake, of the rows left before it, is named by some file. -/
def MistakesAreNamed (arrow : ArrowJoins Value) (columnNames : List String)
    (named : Row String Value → Prop) :
    List (Row String Value) → List (DeleteFileEnvelope Value) → Prop
  | _, [] => True
  | rows, envelope :: envelopes =>
      (∀ row ∈ rows, envelope.Widens columnNames row ∨
        envelope.isReference ∧ envelope.Confuses arrow columnNames rows row → named row) ∧
      MistakesAreNamed arrow columnNames named
        (rows.filter (¬envelope.Removes arrow columnNames rows ·)) envelopes

/-- The result of the deletes: the rows that no file names, and the number of the others. -/
def DeletesExactly (table : Table String Value) (envelopes : List (DeleteFileEnvelope Value))
    (result : Option (Table String Value) × ℕ) : Prop :=
  ∃ remaining, result.1 = some remaining ∧
    remaining.columnNames = table.columnNames ∧
    remaining.rows.Perm (table.rows.filter fun row =>
      ∀ envelope ∈ envelopes, ¬envelope.Names table.columnNames row) ∧
    result.2 + remaining.rows.length = table.rows.length

/-- Where no key is null, both ways to compare keys leave the same rows. -/
def PathsAgree (arrow : ArrowJoins Value) (table : Table String Value)
    (envelopes : List (DeleteFileEnvelope Value)) : Prop :=
  ∀ envelope ∈ envelopes, ¬envelope.HasNullKey table.columnNames table.rows →
    ∀ nullSafe plain,
      nullSafeAntiJoin arrow table envelope.table
        (validColumns table.columnNames envelope.deleteColumns) = .ok nullSafe →
      plainAntiJoin arrow table envelope.table
        (validColumns table.columnNames envelope.deleteColumns) = .ok plain →
      nullSafe.rows.Perm plain.rows

/-- When the deletes are right, as a condition on the table and the delete files. -/
structure MakesNoMistake (arrow : ArrowJoins Value) (table : Table String Value)
    (envelopes : List (DeleteFileEnvelope Value)) : Prop where
  named : MistakesAreNamed arrow table.columnNames
    (fun row => ∃ envelope ∈ envelopes, envelope.Names table.columnNames row) table.rows envelopes
  applied : ∀ envelope ∈ envelopes, ¬envelope.isReference → ∀ row ∈ table.rows,
    envelope.Names table.columnNames row →
      row ∉ rowsLeft arrow table.columnNames table.rows envelopes
  texts : ∀ envelope ∈ envelopes, CanDrop arrow table envelope →
    ¬envelope.HasNullKey table.columnNames table.rows → ∀ row ∈ table.rows,
      envelope.HasTextsOf arrow table.columnNames row →
        AgreesWith envelope.table.rows (validColumns table.columnNames envelope.deleteColumns) row

end Mistakes

section Steps

variable {Value : Type} [DecidableEq Value] {arrow : ArrowJoins Value}
  {table remaining deleteTable : Table String Value} {columnNames columns : List String}
  {envelope : DeleteFileEnvelope Value} {envelopes : List (DeleteFileEnvelope Value)}
  {rows others : List (Row String Value)} {row : Row String Value}

theorem hasNulls_eq_ok {someNull : Bool}
    (returns : hasNulls table deleteTable columns = .ok someNull) :
    someNull = true ↔
      ∃ column ∈ columns, ∃ row ∈ table.rows ++ deleteTable.rows, row column = none := by
  induction columns with
  | nil =>
      cases returns
      simp
  | cons column columns ih =>
      have isNull : (none ∈ table.column column ∨ none ∈ deleteTable.column column) ↔
          ∃ row ∈ table.rows ++ deleteTable.rows, row column = none := by
        simp only [Table.column, List.mem_map, List.mem_append, or_and_right, exists_or]
      rw [hasNulls] at returns
      split_ifs at returns with missing someNulls
      · cases returns
        exact iff_of_true rfl ⟨column, List.mem_cons_self, isNull.mp someNulls⟩
      · rw [ih returns, List.exists_mem_cons_iff, or_iff_right (isNull.not.mp someNulls)]

omit [DecidableEq Value] in
theorem hasTextsOf_of_agreesWith
    (agrees : AgreesWith envelope.table.rows (validColumns columnNames envelope.deleteColumns)
      row) : envelope.HasTextsOf arrow columnNames row := by
  rcases agrees with ⟨other, otherMem, same⟩
  refine List.mem_map.mpr ⟨other, otherMem, ?_⟩
  rw [columnTexts, columnTexts, List.map_inj_left]
  intro column columnMem
  rw [same column columnMem]

/-- A delete file that is applied takes out the rows that it removes. -/
theorem applyDeletes_removes {result : Table String Value × ℕ} (isReference : envelope.isReference)
    (returns : applyDeletes arrow table envelope = .ok result) :
    Leaves table (¬envelope.Removes arrow table.columnNames table.rows ·) result := by
  have nothing : (∀ row ∈ table.rows,
      ¬envelope.Removes arrow table.columnNames table.rows row) →
        Leaves table (¬envelope.Removes arrow table.columnNames table.rows ·) (table, 0) := by
    intro kept
    apply Leaves.all
    simpa using kept
  rw [applyDeletes] at returns
  split_ifs at returns with isEmpty
  · cases returns
    apply nothing
    intro row rowMem
    rcases isEmpty with noRows | noRows
    · rw [noRows] at rowMem
      cases rowMem
    · simp [DeleteFileEnvelope.Removes, DeleteFileEnvelope.Deletes, DeleteFileEnvelope.Confuses,
        DeleteFileEnvelope.HasTextsOf, AgreesWith, noRows]
  rw [dropRows] at returns
  split_ifs at returns with noColumns
  · cases returns
    apply nothing
    intro row _
    simp [DeleteFileEnvelope.Removes, DeleteFileEnvelope.Deletes, DeleteFileEnvelope.Confuses,
      DeleteFileEnvelope.HasNullKey, noColumns]
  cases nulls : hasNulls table envelope.table
      (validColumns table.columnNames envelope.deleteColumns) with
  | error error => simp [antiJoin, nulls, bind, Except.bind] at returns
  | ok someNull =>
      have hasNullKey : someNull = true ↔ envelope.HasNullKey table.columnNames table.rows :=
        hasNulls_eq_ok nulls
      simp only [antiJoin, nulls, bind, Except.bind] at returns
      split at returns
      case h_1 => cases returns
      case h_2 remaining joined =>
      simp only [pure, Except.pure, Except.ok.injEq] at returns
      subst returns
      have isLeft : remaining.columnNames = table.columnNames ∧ remaining.rows.Perm
          (table.rows.filter (¬envelope.Removes arrow table.columnNames table.rows ·)) := by
        split_ifs at joined with isNull
        · -- By texts, a row is removed whether or not it agrees.
          rcases nullSafeAntiJoin_eq_ok joined with ⟨sameColumns, kept⟩
          refine ⟨sameColumns, kept.trans (List.Perm.of_eq (List.filter_congr ?_))⟩
          intro row _
          have removes : envelope.Removes arrow table.columnNames table.rows row ↔
              envelope.HasTextsOf arrow table.columnNames row := by
            simp only [DeleteFileEnvelope.Removes, DeleteFileEnvelope.Deletes,
              DeleteFileEnvelope.Confuses, isReference, noColumns, ne_eq, not_false_eq_true,
              true_and, hasNullKey.mp isNull]
            constructor
            · rintro (agrees | ⟨sameTexts, _⟩)
              · exact hasTextsOf_of_agreesWith agrees
              · exact sameTexts
            · intro sameTexts
              by_cases agrees : AgreesWith envelope.table.rows
                  (validColumns table.columnNames envelope.deleteColumns) row
              · exact Or.inl agrees
              · exact Or.inr ⟨sameTexts, agrees⟩
          rw [Bool.eq_iff_iff, decide_eq_true_iff, decide_eq_true_iff, removes]
          rfl
        · have leaves := plainAntiJoin_leaves joined
          refine ⟨leaves.columnNames, leaves.rows.trans (List.Perm.of_eq (List.filter_congr ?_))⟩
          intro row _
          simp [DeleteFileEnvelope.Removes, DeleteFileEnvelope.Deletes,
            DeleteFileEnvelope.Confuses, isReference, noColumns, hasNullKey.not.mp isNull]
      have isFewer : remaining.rows.length ≤ table.rows.length := by
        rw [isLeft.2.length_eq]
        exact List.length_filter_le _ _
      exact ⟨isLeft.1, isLeft.2, Nat.sub_add_cancel isFewer⟩

omit [DecidableEq Value] in
theorem removes_congr (same : ∀ row, row ∈ rows ↔ row ∈ others) :
    envelope.Removes arrow columnNames rows row ↔
      envelope.Removes arrow columnNames others row := by
  have sameNulls : envelope.HasNullKey columnNames rows ↔
      envelope.HasNullKey columnNames others := by
    simp only [DeleteFileEnvelope.HasNullKey, List.mem_append, same]
  simp only [DeleteFileEnvelope.Removes, DeleteFileEnvelope.Confuses, sameNulls]

/-- What is left does not depend on the order of the rows. -/
theorem rowsLeft_perm (isPerm : rows.Perm others) :
    (rowsLeft arrow columnNames rows envelopes).Perm
      (rowsLeft arrow columnNames others envelopes) := by
  induction envelopes generalizing rows others with
  | nil => exact isPerm
  | cons envelope envelopes ih =>
      apply ih
      have sameRemoves : (rows.filter (¬envelope.Removes arrow columnNames rows ·)) =
          rows.filter (¬envelope.Removes arrow columnNames others ·) := by
        apply List.filter_congr
        intro row _
        simp only [removes_congr fun row => isPerm.mem_iff]
      rw [sameRemoves]
      exact isPerm.filter _

theorem applyEach_rowsLeft {dropped total : ℕ}
    (returns : applyEach arrow table dropped envelopes = .ok (remaining, total)) :
    remaining.columnNames = table.columnNames ∧
      remaining.rows.Perm (rowsLeft arrow table.columnNames table.rows envelopes) ∧
      total + remaining.rows.length = dropped + table.rows.length := by
  induction envelopes generalizing table dropped with
  | nil =>
      cases returns
      exact ⟨rfl, List.Perm.refl _, rfl⟩
  | cons envelope envelopes ih =>
      rw [applyEach] at returns
      split_ifs at returns with isReference
      · cases applied : applyDeletes arrow table envelope with
        | error error => simp [applied, bind, Except.bind] at returns
        | ok result =>
            rcases result with ⟨middle, first⟩
            simp only [applied, bind, Except.bind] at returns
            have leaves := applyDeletes_removes isReference applied
            rcases ih returns with ⟨sameColumns, isLeft, counts⟩
            have middleColumns : middle.columnNames = table.columnNames := leaves.columnNames
            rw [middleColumns] at sameColumns isLeft
            refine ⟨sameColumns, isLeft.trans (rowsLeft_perm leaves.rows), ?_⟩
            have isDropped := leaves.dropped
            simp only at isDropped
            omega
      · rcases ih returns with ⟨sameColumns, isLeft, counts⟩
        refine ⟨sameColumns, ?_, counts⟩
        rw [rowsLeft]
        simpa [DeleteFileEnvelope.Removes, DeleteFileEnvelope.Deletes, isReference] using isLeft

/-- Rows are left or removed by their cells, all that are equal alike. -/
theorem exists_rowsLeft_eq_filter (rows : List (Row String Value))
    (envelopes : List (DeleteFileEnvelope Value)) :
    ∃ select : Row String Value → Bool,
      rowsLeft arrow columnNames rows envelopes = rows.filter select := by
  induction envelopes generalizing rows with
  | nil => exact ⟨fun _ => true, by simp [rowsLeft]⟩
  | cons envelope envelopes ih =>
      rcases ih (rows.filter (¬envelope.Removes arrow columnNames rows ·)) with ⟨select, isLeft⟩
      rw [rowsLeft, isLeft, List.filter_filter]
      exact ⟨_, rfl⟩

theorem rowsLeft_perm_filter_iff {named : Row String Value → Prop} [DecidablePred named] :
    (rowsLeft arrow columnNames rows envelopes).Perm (rows.filter (¬named ·)) ↔
      ∀ row ∈ rows, row ∉ rowsLeft arrow columnNames rows envelopes ↔ named row := by
  rcases exists_rowsLeft_eq_filter rows envelopes with ⟨select, isLeft⟩
  rw [isLeft]
  constructor
  · intro isPerm row rowMem
    have same := isPerm.mem_iff (a := row)
    simp only [List.mem_filter, rowMem, true_and, decide_eq_true_eq] at same ⊢
    rw [same, not_not]
  · intro same
    apply List.Perm.of_eq
    apply List.filter_congr
    intro row rowMem
    have isNamed := same row rowMem
    simp only [List.mem_filter, rowMem, true_and] at isNamed
    rw [Bool.eq_iff_iff, decide_eq_true_iff, ← isNamed, not_not]

theorem not_mem_rowsLeft_cons :
    row ∉ rowsLeft arrow columnNames rows (envelope :: envelopes) ↔
      row ∉ rows ∨ envelope.Removes arrow columnNames rows row ∨
        row ∉ rowsLeft arrow columnNames
          (rows.filter (¬envelope.Removes arrow columnNames rows ·)) envelopes := by
  rcases exists_rowsLeft_eq_filter (rows.filter (¬envelope.Removes arrow columnNames rows ·))
    envelopes with ⟨select, isLeft⟩
  rw [rowsLeft, isLeft]
  simp only [List.mem_filter, decide_eq_true_eq]
  tauto

omit [DecidableEq Value] in
theorem validColumns_eq_self {columnNames deleteColumns : List String}
    (allColumns : deleteColumns ⊆ columnNames) :
    validColumns columnNames deleteColumns = deleteColumns :=
  List.filter_eq_self.mpr fun _ columnMem => by simpa using allColumns columnMem

omit [DecidableEq Value] in
/-- A file that is applied removes the rows that it names, and others by mistake. -/
theorem removes_iff (isReference : envelope.isReference) :
    envelope.Removes arrow columnNames rows row ↔
      envelope.Names columnNames row ∨ envelope.Widens columnNames row ∨
        envelope.isReference ∧ envelope.Confuses arrow columnNames rows row := by
  rw [DeleteFileEnvelope.Removes, ← or_assoc]
  apply or_congr_left'
  intro _
  by_cases allColumns : envelope.deleteColumns ⊆ columnNames
  · simp [DeleteFileEnvelope.Names, DeleteFileEnvelope.Widens, DeleteFileEnvelope.Deletes,
      allColumns, isReference, validColumns_eq_self allColumns, envelope.hasColumns]
  · simp [DeleteFileEnvelope.Names, DeleteFileEnvelope.Widens, allColumns]

theorem not_mem_rowsLeft_of_names (isReference : envelope.isReference)
    (envelopeMem : envelope ∈ envelopes) (isNamed : envelope.Names columnNames row) :
    row ∉ rowsLeft arrow columnNames rows envelopes := by
  induction envelopes generalizing rows with
  | nil => cases envelopeMem
  | cons first envelopes ih =>
      rw [not_mem_rowsLeft_cons]
      rcases List.mem_cons.mp envelopeMem with rfl | isLater
      · exact Or.inr (Or.inl ((removes_iff isReference).mpr (Or.inl isNamed)))
      · exact Or.inr (Or.inr (ih isLater))

/-- Only named rows are removed exactly when the rows that are removed by mistake are named. -/
theorem mistakesAreNamed_iff {named : Row String Value → Prop}
    (names : ∀ envelope ∈ envelopes, ∀ row, envelope.Names columnNames row → named row) :
    MistakesAreNamed arrow columnNames named rows envelopes ↔
      ∀ row ∈ rows, row ∉ rowsLeft arrow columnNames rows envelopes → named row := by
  induction envelopes generalizing rows with
  | nil => exact iff_of_true trivial fun _ rowMem missing => absurd rowMem missing
  | cons envelope envelopes ih =>
      have later := fun other otherMem => names other (List.mem_cons_of_mem envelope otherMem)
      have removed : (∀ row ∈ rows, envelope.Widens columnNames row ∨
          envelope.isReference ∧ envelope.Confuses arrow columnNames rows row → named row) ↔
            ∀ row ∈ rows, envelope.Removes arrow columnNames rows row → named row := by
        apply forall₂_congr
        intro row _
        by_cases isReference : envelope.isReference
        · rw [removes_iff isReference]
          have namedByFirst := names envelope List.mem_cons_self row
          exact ⟨fun mistakes removes => removes.elim namedByFirst mistakes,
            fun all mistake => all (Or.inr mistake)⟩
        · simp [DeleteFileEnvelope.Widens, DeleteFileEnvelope.Removes, DeleteFileEnvelope.Deletes,
            isReference]
      rw [MistakesAreNamed, removed, ih later]
      simp only [not_mem_rowsLeft_cons, List.mem_filter, decide_eq_true_eq]
      constructor
      · rintro ⟨now, afterwards⟩ row rowMem (missing | removes | notLeft)
        · exact absurd rowMem missing
        · exact now row rowMem removes
        · by_cases removes : envelope.Removes arrow columnNames rows row
          · exact now row rowMem removes
          · exact afterwards row ⟨rowMem, removes⟩ notLeft
      · intro all
        exact ⟨fun row rowMem removes => all row rowMem (Or.inr (Or.inl removes)),
          fun row rowMem notLeft => all row rowMem.1 (Or.inr (Or.inr notLeft))⟩

theorem applyManyDeletes_rowsLeft {result : Option (Table String Value) × ℕ}
    (returns : applyManyDeletes arrow (some table) envelopes = .ok result) :
    ∃ remaining, result.1 = some remaining ∧ remaining.columnNames = table.columnNames ∧
      remaining.rows.Perm (rowsLeft arrow table.columnNames table.rows envelopes) ∧
      result.2 + remaining.rows.length = table.rows.length := by
  simp only [applyManyDeletes] at returns
  split_ifs at returns with isEmpty
  · cases returns
    rcases exists_rowsLeft_eq_filter table.rows envelopes with ⟨select, isLeft⟩
    refine ⟨table, rfl, rfl, ?_, Nat.zero_add _⟩
    rw [isLeft, isEmpty]
    rfl
  · cases applied : applyEach arrow table 0 envelopes with
    | error error => simp [applied, bind, Except.bind] at returns
    | ok pair =>
        rcases pair with ⟨remaining, total⟩
        simp only [applied, bind, Except.bind, pure, Except.pure, Except.ok.injEq] at returns
        subst returns
        rcases applyEach_rowsLeft applied with ⟨sameColumns, isLeft, counts⟩
        exact ⟨remaining, rfl, sameColumns, isLeft, by simpa using counts⟩

/-- The result is right exactly when only and all named rows are removed. -/
theorem deletesExactly_iff {result : Option (Table String Value) × ℕ}
    (returns : applyManyDeletes arrow (some table) envelopes = .ok result) :
    DeletesExactly table envelopes result ↔
      ∀ row ∈ table.rows, row ∉ rowsLeft arrow table.columnNames table.rows envelopes ↔
        ∃ envelope ∈ envelopes, envelope.Names table.columnNames row := by
  rcases applyManyDeletes_rowsLeft returns with
    ⟨remaining, isRemaining, sameColumns, isLeft, counts⟩
  have notNamed : (table.rows.filter fun row =>
      ∀ envelope ∈ envelopes, ¬envelope.Names table.columnNames row) =
        table.rows.filter
          (¬∃ envelope ∈ envelopes, envelope.Names table.columnNames ·) := by
    simp only [not_exists, not_and]
  rw [← rowsLeft_perm_filter_iff, ← notNamed]
  constructor
  · rintro ⟨other, isOther, _, isKept, _⟩
    cases Option.some.inj (isRemaining.symm.trans isOther)
    exact isLeft.symm.trans isKept
  · intro isKept
    exact ⟨remaining, isRemaining, sameColumns, isLeft.trans isKept, counts⟩

/-- The two ways to compare keys agree where the texts tell the rows apart. -/
theorem pathsAgree_iff :
    PathsAgree arrow table envelopes ↔
      ∀ envelope ∈ envelopes, CanDrop arrow table envelope →
        ¬envelope.HasNullKey table.columnNames table.rows → ∀ row ∈ table.rows,
          envelope.HasTextsOf arrow table.columnNames row →
            AgreesWith envelope.table.rows (validColumns table.columnNames envelope.deleteColumns)
              row := by
  constructor
  · intro agree envelope envelopeMem canDrop noNull row rowMem sameTexts
    rcases canDrop_iff.mp canDrop with ⟨⟨nullSafe, isNullSafe⟩, plain, isPlain⟩
    have isPerm := agree envelope envelopeMem noNull nullSafe plain isNullSafe isPlain
    by_contra different
    have inPlain : row ∈ plain.rows := by
      rw [(plainAntiJoin_leaves isPlain).rows.mem_iff, List.mem_filter]
      exact ⟨rowMem, by simpa using different⟩
    rw [← isPerm.mem_iff, (nullSafeAntiJoin_eq_ok isNullSafe).2.mem_iff, List.mem_filter,
      decide_eq_true_iff] at inPlain
    exact inPlain.2 sameTexts
  · intro apart envelope envelopeMem noNull nullSafe plain isNullSafe isPlain
    have canDrop := canDrop_iff.mpr ⟨⟨nullSafe, isNullSafe⟩, plain, isPlain⟩
    have sameRows : (table.rows.filter fun row =>
        columnTexts arrow (validColumns table.columnNames envelope.deleteColumns) row ∉
          envelope.table.rows.map
            (columnTexts arrow (validColumns table.columnNames envelope.deleteColumns))) =
        table.rows.filter fun row => ¬AgreesWith envelope.table.rows
          (validColumns table.columnNames envelope.deleteColumns) row := by
      apply List.filter_congr
      intro row rowMem
      rw [Bool.eq_iff_iff, decide_eq_true_iff, decide_eq_true_iff, not_iff_not]
      exact ⟨apart envelope envelopeMem canDrop noNull row rowMem, hasTextsOf_of_agreesWith⟩
    have kept := (nullSafeAntiJoin_eq_ok isNullSafe).2
    rw [sameRows] at kept
    exact kept.trans (plainAntiJoin_leaves isPlain).rows.symm

/-- Where the texts tell the cells apart, no row is taken for another. -/
theorem Comparable.agreesWith (comparable : Comparable arrow table envelope)
    (rowMem : row ∈ table.rows) (sameTexts : envelope.HasTextsOf arrow table.columnNames row) :
    AgreesWith envelope.table.rows (validColumns table.columnNames envelope.deleteColumns) row :=
  (mem_columnTexts_iff comparable rowMem).mp (List.mem_dedup.mpr sameTexts)

/-- Stored delete files whose columns the table has make no mistake, if texts tell cells apart. -/
theorem makesNoMistake_of_comparable
    (areStored : ∀ envelope ∈ envelopes, envelope.isReference)
    (haveColumns : ∀ envelope ∈ envelopes, envelope.deleteColumns ⊆ table.columnNames)
    (comparable : ∀ envelope ∈ envelopes, Comparable arrow table envelope) :
    MakesNoMistake arrow table envelopes where
  named := by
    have noneMistaken : ∀ (named : Row String Value → Prop) (rows : List (Row String Value)),
        rows ⊆ table.rows → MistakesAreNamed arrow table.columnNames named rows envelopes := by
      intro named
      clear areStored
      induction envelopes with
      | nil => exact fun _ _ => trivial
      | cons envelope envelopes ih =>
          intro rows areRows
          refine ⟨?_, ih (fun other otherMem => haveColumns other (List.mem_cons_of_mem _ otherMem))
            (fun other otherMem => comparable other (List.mem_cons_of_mem _ otherMem)) _
            (List.Subset.trans (List.filter_subset_self _) areRows)⟩
          rintro row rowMem (⟨_, lacksColumns⟩ | ⟨_, _, sameTexts, different⟩)
          · exact absurd (haveColumns envelope List.mem_cons_self) lacksColumns
          · exact absurd ((comparable envelope List.mem_cons_self).agreesWith (areRows rowMem)
              sameTexts) different
    exact noneMistaken _ _ (List.Subset.refl _)
  applied := fun envelope envelopeMem notStored =>
    absurd (areStored envelope envelopeMem) notStored
  texts := fun envelope envelopeMem _ _ _ rowMem =>
    (comparable envelope envelopeMem).agreesWith rowMem

end Steps

section Spec

variable {Value : Type} [DecidableEq Value]

/-- The deletion of a store in a city. -/
def inCity (region city : String) : DeleteFileEnvelope String where
  streamPosition := 2
  table := {
    columnNames := ["region", "city"]
    rows := [fun column =>
      if column = "region" then some region else if column = "city" then some city else none]
    absent := by
      intro row rowMem column isOther
      simp only [List.mem_cons, List.not_mem_nil, or_false, not_or] at rowMem isOther
      simp [rowMem, isOther] }
  deleteColumns := ["region", "city"]
  isReference := true
  hasColumns := List.cons_ne_nil _ _

/-- The deletion of a region's rows without a store. -/
def withNullStore (region : String) : DeleteFileEnvelope String :=
  { withoutStore region with
    deleteColumns := ["region", "store"]
    hasColumns := List.cons_ne_nil _ _ }

/-- The deletion of a region. -/
def wholeRegion (region : String) : DeleteFileEnvelope String :=
  { withoutStore region with
    deleteColumns := ["region"]
    hasColumns := List.cons_ne_nil _ _ }

end Spec

end Deltacat.Compute.CompactorV2
