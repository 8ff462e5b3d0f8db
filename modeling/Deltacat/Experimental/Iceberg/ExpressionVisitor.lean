import Deltacat.Exceptions
import Mathlib.Tactic

/-!
# Translation of filters to Iceberg

The visitor turns a boolean expression into an Iceberg filter. References become
column names and literals become plain values, and the predicates of Iceberg take
the first operand for a column name and the second for a literal, whatever they
were. A filter means the same as its expression if each reference is a first
operand and each literal another one (`eval_visit`). A text literal in the first
place is taken for a column, and a reference in another place for a text. The
predicates keep a first operand of any other type as it is, and only the
evaluation of the filter finds that this is no column. A null in another place is
the one thing they refuse.

`Like` has no counterpart and is translated to no filter at all. As an operand of
`And`, `Or` or `Not` this is no filter that could be evaluated.
-/

namespace Deltacat.Experimental.Iceberg

/-- A plain value: a text, or a value of another type that Iceberg has literals of. -/
inductive Value (Other : Type)
  | text (text : String)
  | other (value : Other)
  deriving DecidableEq

/-- A reference to a field, or a literal, which may be null. -/
inductive Operand (Other : Type)
  | reference (field : String)
  | literal (value : Option (Value Other))
  deriving DecidableEq

/-- The six comparisons. -/
inductive Comparison
  | equal
  | notEqual
  | greaterThan
  | greaterThanEqual
  | lessThan
  | lessThanEqual
  deriving DecidableEq

/-- A boolean expression of the storage model. -/
inductive BooleanExpression (Other : Type)
  | and (left right : BooleanExpression Other)
  | or (left right : BooleanExpression Other)
  | not (operand : BooleanExpression Other)
  | compare (relation : Comparison) (left right : Operand Other)
  | isNull (operand : Operand Other)
  | isIn (value : Operand Other) (values : List (Operand Other))
  | between (value lower upper : Operand Other)
  | like (value pattern : Operand Other)

/--
A filter of Iceberg. The term of a predicate is what the visitor returned for its
first operand, which may be no column name, and the operands of `And`, `Or` and
`Not` are what it returned for them, which may be no filter.
-/
inductive Filter (Other : Type)
  | alwaysTrue
  | alwaysFalse
  | predicate (relation : Comparison) (term : Option (Value Other)) (literal : Value Other)
  | isNull (term : Option (Value Other))
  | isIn (term : Option (Value Other)) (literals : List (Value Other))
  | and (left right : Option (Filter Other))
  | or (left right : Option (Filter Other))
  | not (child : Option (Filter Other))

variable {Other : Type}

section Visitor

/-- `visit_reference` and `visit_literal`: the column name, or the plain value. -/
def visitOperand : Operand Other → Option (Value Other)
  | .reference field => some (.text field)
  | .literal value => value

/-- Another argument of a predicate of Iceberg than the first, which must not be null. -/
def literalValue : Option (Value Other) → Except Error (Value Other)
  | some value => .ok value
  | none => .error .typeError

/-- A comparison of Iceberg with the operands as the visitor returned them. -/
def comparePredicate (relation : Comparison) (left right : Option (Value Other)) :
    Except Error (Filter Other) := do
  return .predicate relation left (← literalValue right)

/-- `In` of Iceberg, which no value is in if there are no literals. -/
def inPredicate (term : Option (Value Other)) : List (Value Other) → Filter Other
  | [] => .alwaysFalse
  | literals => .isIn term literals

/-- `And` of Iceberg, which leaves out the filters that accept all rows. -/
def conjunction : Option (Filter Other) → Option (Filter Other) → Option (Filter Other)
  | some .alwaysFalse, _ | _, some .alwaysFalse => some .alwaysFalse
  | some .alwaysTrue, right => right
  | left, some .alwaysTrue => left
  | left, right => some (.and left right)

/-- `Or` of Iceberg, which leaves out the filters that accept no row. -/
def disjunction : Option (Filter Other) → Option (Filter Other) → Option (Filter Other)
  | some .alwaysTrue, _ | _, some .alwaysTrue => some .alwaysTrue
  | some .alwaysFalse, right => right
  | left, some .alwaysFalse => left
  | left, right => some (.or left right)

/-- `Not` of Iceberg, which undoes another `Not`. -/
def negation : Option (Filter Other) → Option (Filter Other)
  | some .alwaysTrue => some .alwaysFalse
  | some .alwaysFalse => some .alwaysTrue
  | some (.not child) => child
  | child => some (.not child)

/-- `IcebergExpressionVisitor.visit`. -/
def visit : BooleanExpression Other → Except Error (Option (Filter Other))
  | .and left right => do
      let leftFilter ← visit left
      let rightFilter ← visit right
      return conjunction leftFilter rightFilter
  | .or left right => do
      let leftFilter ← visit left
      let rightFilter ← visit right
      return disjunction leftFilter rightFilter
  | .not operand => do
      let filter ← visit operand
      return negation filter
  | .compare relation left right => do
      return some (← comparePredicate relation (visitOperand left) (visitOperand right))
  | .isNull operand => .ok (some (.isNull (visitOperand operand)))
  | .isIn value values => do
      let literals ← values.mapM fun operand => literalValue (visitOperand operand)
      return some (inPredicate (visitOperand value) literals)
  | .between value lower upper => do
      let least ← comparePredicate .greaterThanEqual (visitOperand value) (visitOperand lower)
      let greatest ← comparePredicate .lessThanEqual (visitOperand value) (visitOperand upper)
      return conjunction (some least) (some greatest)
  | .like _ _ => .ok none

end Visitor

section Semantics

/-- The truth values of SQL. -/
inductive Truth
  | isTrue
  | isFalse
  | unknown
  deriving DecidableEq

namespace Truth

def ofBool (holds : Bool) : Truth := if holds then isTrue else isFalse

def and : Truth → Truth → Truth
  | isFalse, _ | _, isFalse => isFalse
  | isTrue, isTrue => isTrue
  | _, _ => unknown

def not : Truth → Truth
  | isTrue => isFalse
  | isFalse => isTrue
  | unknown => unknown

def or : Truth → Truth → Truth
  | isTrue, _ | _, isTrue => isTrue
  | isFalse, isFalse => isFalse
  | _, _ => unknown

/-- A relation of two values, which is unknown of a null. -/
def relate (holds : Value Other → Value Other → Bool) :
    Option (Value Other) → Option (Value Other) → Truth
  | some left, some right => ofBool (holds left right)
  | _, _ => unknown

@[simp]
theorem isFalse_and (truth : Truth) : isFalse.and truth = isFalse := by
  cases truth <;> rfl

@[simp]
theorem and_isFalse (truth : Truth) : truth.and isFalse = isFalse := by
  cases truth <;> rfl

@[simp]
theorem isTrue_and (truth : Truth) : isTrue.and truth = truth := by
  cases truth <;> rfl

@[simp]
theorem and_isTrue (truth : Truth) : truth.and isTrue = truth := by
  cases truth <;> rfl

@[simp]
theorem isTrue_or (truth : Truth) : isTrue.or truth = isTrue := by
  cases truth <;> rfl

@[simp]
theorem or_isTrue (truth : Truth) : truth.or isTrue = isTrue := by
  cases truth <;> rfl

@[simp]
theorem isFalse_or (truth : Truth) : isFalse.or truth = truth := by
  cases truth <;> rfl

@[simp]
theorem or_isFalse (truth : Truth) : truth.or isFalse = truth := by
  cases truth <;> rfl

@[simp]
theorem not_not (truth : Truth) : truth.not.not = truth := by
  cases truth <;> rfl

end Truth

/-- How values compare and which patterns they match. -/
structure Semantics (Other : Type) where
  compare : Value Other → Value Other → Ordering
  matchesPattern : Value Other → Value Other → Bool

/-- The values of the columns in a row. -/
abbrev Row (Other : Type) := String → Option (Value Other)

/-- Whether a comparison holds of values that are ordered like this. -/
def Comparison.holds : Comparison → Ordering → Bool
  | equal, order => order = .eq
  | notEqual, order => order ≠ .eq
  | greaterThan, order => order = .gt
  | greaterThanEqual, order => order ≠ .lt
  | lessThan, order => order = .lt
  | lessThanEqual, order => order ≠ .gt

variable (semantics : Semantics Other) (row : Row Other)

/-- A comparison in SQL. -/
def Comparison.eval (relation : Comparison) (left right : Option (Value Other)) : Truth :=
  Truth.relate (fun first second => relation.holds (semantics.compare first second)) left right

def Operand.eval : Operand Other → Option (Value Other)
  | .reference field => row field
  | .literal value => value

/-- The truth value of an expression in SQL. -/
def BooleanExpression.eval : BooleanExpression Other → Truth
  | .and left right => left.eval.and right.eval
  | .or left right => left.eval.or right.eval
  | .not operand => operand.eval.not
  | .compare relation left right =>
      relation.eval semantics (left.eval row) (right.eval row)
  | .isNull operand => Truth.ofBool (operand.eval row).isNone
  | .isIn value values =>
      (values.map fun other =>
        Comparison.equal.eval semantics (value.eval row) (other.eval row)).foldr Truth.or .isFalse
  | .between value lower upper =>
      (Comparison.greaterThanEqual.eval semantics (value.eval row) (lower.eval row)).and
        (Comparison.lessThanEqual.eval semantics (value.eval row) (upper.eval row))
  | .like value pattern =>
      Truth.relate semantics.matchesPattern (value.eval row) (pattern.eval row)

/-- The column of a predicate. A term that is no text is no reference to a column. -/
def columnName : Option (Value Other) → Except Error String
  | some (.text name) => .ok name
  | _ => .error .attributeError

/--
The truth value of a filter. What is no filter cannot be evaluated, and a predicate
not without a column.
-/
def Filter.eval : Filter Other → Except Error Truth
  | .alwaysTrue => .ok .isTrue
  | .alwaysFalse => .ok .isFalse
  | .predicate relation term literal => do
      return relation.eval semantics (row (← columnName term)) (some literal)
  | .isNull term => do
      return Truth.ofBool (row (← columnName term)).isNone
  | .isIn term literals => do
      let column ← columnName term
      return (literals.map fun literal =>
        Comparison.equal.eval semantics (row column) (some literal)).foldr Truth.or .isFalse
  | .and (some left) (some right) => do return (← left.eval).and (← right.eval)
  | .or (some left) (some right) => do return (← left.eval).or (← right.eval)
  | .not (some child) => do return (← child.eval).not
  | .and _ _ | .or _ _ | .not _ => .error .notImplementedError

/-- A scan keeps the rows of which its filter is true, and all rows if it has none. -/
def accepts : Option (Filter Other) → Prop
  | some filter => filter.eval semantics row = .ok .isTrue
  | none => True

end Semantics

/-- No part of the expression is a `Like`. -/
def BooleanExpression.NoLike : BooleanExpression Other → Prop
  | .and left right | .or left right => left.NoLike ∧ right.NoLike
  | .not operand => operand.NoLike
  | .like _ _ => False
  | _ => True

/--
The visitor raises, or its filter accepts all rows of which the expression is
true, and no others if there is no `Like` in it.
-/
def NeverLosesRows (semantics : Semantics Other) (expression : BooleanExpression Other) : Prop :=
  ∀ filter, visit expression = .ok filter →
    (∀ row, expression.eval semantics row = .isTrue → accepts semantics row filter) ∧
      (expression.NoLike → ∀ row,
        accepts semantics row filter → expression.eval semantics row = .isTrue)

namespace Operand

def IsReference : Operand Other → Prop
  | reference _ => True
  | literal _ => False

def IsLiteral : Operand Other → Prop
  | reference _ => False
  | literal _ => True

def IsNullLiteral : Operand Other → Prop
  | literal none => True
  | _ => False

theorem literalValue_eq_error_iff {operand : Operand Other} :
    (∃ error, literalValue (visitOperand operand) = .error error) ↔ operand.IsNullLiteral := by
  cases operand with
  | reference field => simp [literalValue, visitOperand, IsNullLiteral]
  | literal value => cases value <;> simp [literalValue, visitOperand, IsNullLiteral]

/-- A reference is found again as the column of the predicate. -/
theorem exists_column {operand : Operand Other} (isReference : operand.IsReference) :
    ∃ column, columnName (visitOperand operand) = .ok column ∧
      ∀ row : Row Other, operand.eval row = row column := by
  cases operand with
  | reference field => exact ⟨field, rfl, fun _ => rfl⟩
  | literal value => cases isReference

theorem eval_of_isLiteral {operand : Operand Other} (isLiteral : operand.IsLiteral)
    {value : Value Other} (given : literalValue (visitOperand operand) = .ok value)
    (row : Row Other) : operand.eval row = some value := by
  cases operand with
  | reference field => cases isLiteral
  | literal literal =>
      cases literal with
      | none => cases given
      | some literal =>
          cases given
          rfl

end Operand

namespace BooleanExpression

/-- A predicate of Iceberg refuses its arguments: one that is not the first is null. -/
def Rejected : BooleanExpression Other → Prop
  | and left right | or left right => left.Rejected ∨ right.Rejected
  | not operand => operand.Rejected
  | compare _ _ right => right.IsNullLiteral
  | isIn _ values => ∃ other ∈ values, other.IsNullLiteral
  | between _ lower upper => lower.IsNullLiteral ∨ upper.IsNullLiteral
  | isNull _ | like _ _ => False

/-- Every predicate has a reference as its first operand and literals as the others. -/
def Placed : BooleanExpression Other → Prop
  | and left right | or left right => left.Placed ∧ right.Placed
  | not operand => operand.Placed
  | compare _ left right => left.IsReference ∧ right.IsLiteral
  | isNull operand => operand.IsReference
  | isIn value values => value.IsReference ∧ ∀ other ∈ values, other.IsLiteral
  | between value lower upper => value.IsReference ∧ lower.IsLiteral ∧ upper.IsLiteral
  | like _ _ => True

def IsLike : BooleanExpression Other → Prop
  | like _ _ => True
  | _ => False

/--
The visitor raises, or the whole expression is a `Like`, or there is no `Like` in
it and every operand is in its place.
-/
def Translatable (expression : BooleanExpression Other) : Prop :=
  expression.Rejected ∨ expression.IsLike ∨ expression.NoLike ∧ expression.Placed

end BooleanExpression

section Raising

theorem comparePredicate_eq_error_iff {relation : Comparison} {left right : Operand Other} :
    (∃ error, comparePredicate relation (visitOperand left) (visitOperand right) = .error error) ↔
      right.IsNullLiteral := by
  rw [← Operand.literalValue_eq_error_iff]
  simp only [comparePredicate]
  cases literalValue (visitOperand right) <;> simp [bind, Except.bind, pure, Except.pure]

theorem mapM_literalValue_eq_error_iff {values : List (Operand Other)} :
    (∃ error, (values.mapM fun operand => literalValue (visitOperand operand)) = .error error) ↔
      ∃ other ∈ values, other.IsNullLiteral := by
  induction values with
  | nil => simp [pure, Except.pure]
  | cons first rest ih =>
      rw [List.mapM_cons, List.exists_mem_cons_iff, ← Operand.literalValue_eq_error_iff, ← ih]
      cases literalValue (visitOperand first) with
      | error error => simp [bind, Except.bind]
      | ok value =>
          cases rest.mapM fun operand => literalValue (visitOperand operand) <;>
            simp [bind, Except.bind, pure, Except.pure]

/-- The visitor raises exactly if a predicate refuses its arguments. -/
theorem visit_eq_error_iff (expression : BooleanExpression Other) :
    (∃ error, visit expression = .error error) ↔ expression.Rejected := by
  induction expression with
  | and left right leftIh rightIh | or left right leftIh rightIh =>
      rw [BooleanExpression.Rejected, ← leftIh, ← rightIh, visit]
      cases visit left with
      | error error => simp [bind, Except.bind]
      | ok leftFilter => cases visit right <;> simp [bind, Except.bind, pure, Except.pure]
  | not operand ih =>
      rw [BooleanExpression.Rejected, ← ih, visit]
      cases visit operand <;> simp [bind, Except.bind, pure, Except.pure]
  | compare relation left right =>
      rw [BooleanExpression.Rejected,
        ← @comparePredicate_eq_error_iff _ relation left right, visit]
      cases comparePredicate relation (visitOperand left) (visitOperand right) <;>
        simp [bind, Except.bind, pure, Except.pure]
  | isNull operand => simp [visit, BooleanExpression.Rejected]
  | isIn value values =>
      rw [BooleanExpression.Rejected, ← mapM_literalValue_eq_error_iff, visit]
      cases values.mapM fun operand => literalValue (visitOperand operand) <;>
        simp [bind, Except.bind, pure, Except.pure]
  | between value lower upper =>
      rw [BooleanExpression.Rejected,
        ← @comparePredicate_eq_error_iff _ .greaterThanEqual value lower,
        ← @comparePredicate_eq_error_iff _ .lessThanEqual value upper, visit]
      cases comparePredicate .greaterThanEqual (visitOperand value) (visitOperand lower) with
      | error error => simp [bind, Except.bind]
      | ok least =>
          cases comparePredicate .lessThanEqual (visitOperand value) (visitOperand upper) <;>
            simp [bind, Except.bind, pure, Except.pure]
  | like value pattern => simp [visit, BooleanExpression.Rejected]

end Raising

section Meaning

variable (semantics : Semantics Other) (row : Row Other)

/-- Leaving out filters that accept all rows, or none, does not change what a
conjunction means. -/
theorem eval_conjunction {left right : Filter Other} {first second : Truth}
    (leftMeans : left.eval semantics row = .ok first)
    (rightMeans : right.eval semantics row = .ok second) :
    ∃ filter, conjunction (some left) (some right) = some filter ∧
      filter.eval semantics row = .ok (first.and second) := by
  rw [conjunction.eq_def]
  split <;> simp_all [Filter.eval, bind, Except.bind, pure, Except.pure]
  all_goals first
    | rw [← leftMeans]; simp
    | rw [← rightMeans]; simp

theorem eval_disjunction {left right : Filter Other} {first second : Truth}
    (leftMeans : left.eval semantics row = .ok first)
    (rightMeans : right.eval semantics row = .ok second) :
    ∃ filter, disjunction (some left) (some right) = some filter ∧
      filter.eval semantics row = .ok (first.or second) := by
  rw [disjunction.eq_def]
  split <;> simp_all [Filter.eval, bind, Except.bind, pure, Except.pure]
  all_goals first
    | rw [← leftMeans]; simp
    | rw [← rightMeans]; simp

theorem eval_negation {child : Filter Other} {truth : Truth}
    (means : child.eval semantics row = .ok truth) :
    ∃ filter, negation (some child) = some filter ∧
      filter.eval semantics row = .ok truth.not := by
  cases child with
  | alwaysTrue | alwaysFalse =>
      cases means
      exact ⟨_, rfl, rfl⟩
  | not inner =>
      -- A `Not` below is undone, and what it negates means the negation of it.
      cases inner with
      | none => cases means
      | some inner =>
          rw [Filter.eval] at means
          cases innerMeans : inner.eval semantics row with
          | error error => simp [innerMeans, bind, Except.bind] at means
          | ok innerTruth =>
              rw [innerMeans] at means
              cases means
              exact ⟨inner, rfl, by rw [innerMeans, Truth.not_not]⟩
  | _ => exact ⟨_, rfl, by rw [Filter.eval, means]; rfl⟩

theorem eval_inPredicate {value : Operand Other} (isReference : value.IsReference)
    (literals : List (Value Other)) :
    (inPredicate (visitOperand value) literals).eval semantics row =
      .ok ((literals.map fun literal =>
        Comparison.equal.eval semantics (value.eval row) (some literal)).foldr Truth.or
          .isFalse) := by
  rcases value.exists_column isReference with ⟨column, named, means⟩
  cases literals with
  | nil => rfl
  | cons first rest => simp [inPredicate, Filter.eval, named, means, bind, Except.bind, pure,
      Except.pure]

theorem eval_comparePredicate {relation : Comparison} {left right : Operand Other}
    (isReference : left.IsReference) (isLiteral : right.IsLiteral) {filter : Filter Other}
    (built : comparePredicate relation (visitOperand left) (visitOperand right) = .ok filter) :
    filter.eval semantics row =
      .ok (relation.eval semantics (left.eval row) (right.eval row)) := by
  simp only [comparePredicate, bind, Except.bind, pure, Except.pure] at built
  split at built
  · cases built
  rename_i value given
  cases built
  rcases left.exists_column isReference with ⟨column, named, means⟩
  rw [Filter.eval, named, means, right.eval_of_isLiteral isLiteral given]
  rfl

theorem map_eval_of_mapM {values : List (Operand Other)} {literals : List (Value Other)}
    (areLiterals : ∀ other ∈ values, other.IsLiteral)
    (given : (values.mapM fun operand => literalValue (visitOperand operand)) = .ok literals) :
    values.map (Operand.eval row) = literals.map some := by
  induction values generalizing literals with
  | nil =>
      cases given
      rfl
  | cons first rest ih =>
      rw [List.mapM_cons] at given
      simp only [bind, Except.bind, pure, Except.pure] at given
      split at given
      · cases given
      rename_i value isValue
      split at given
      · cases given
      rename_i others areOthers
      cases given
      rw [List.map_cons, List.map_cons,
        ih (fun other present => areLiterals other (by simp [present])) areOthers,
        first.eval_of_isLiteral (areLiterals first (by simp)) isValue]

/-- An expression with every operand in its place means the same as its filter. -/
theorem eval_visit {expression : BooleanExpression Other} (noLike : expression.NoLike)
    (placed : expression.Placed) {result : Option (Filter Other)}
    (visited : visit expression = .ok result) :
    ∃ filter, result = some filter ∧
      filter.eval semantics row = .ok (expression.eval semantics row) := by
  induction expression generalizing result with
  | and left right leftIh rightIh | or left right leftIh rightIh =>
      simp only [visit, bind, Except.bind, pure, Except.pure] at visited
      split at visited
      · cases visited
      rename_i leftResult leftVisited
      split at visited
      · cases visited
      rename_i rightResult rightVisited
      cases visited
      rcases leftIh noLike.1 placed.1 leftVisited with ⟨leftFilter, rfl, leftMeans⟩
      rcases rightIh noLike.2 placed.2 rightVisited with ⟨rightFilter, rfl, rightMeans⟩
      first
        | exact eval_conjunction semantics row leftMeans rightMeans
        | exact eval_disjunction semantics row leftMeans rightMeans
  | not operand ih =>
      simp only [visit, bind, Except.bind, pure, Except.pure] at visited
      split at visited
      · cases visited
      rename_i childResult childVisited
      cases visited
      rcases ih noLike placed childVisited with ⟨child, rfl, means⟩
      exact eval_negation semantics row means
  | compare relation left right =>
      simp only [visit, bind, Except.bind, pure, Except.pure] at visited
      split at visited
      · cases visited
      rename_i filter built
      cases visited
      exact ⟨filter, rfl, eval_comparePredicate semantics row placed.1 placed.2 built⟩
  | isNull operand =>
      cases visited
      rcases operand.exists_column placed with ⟨column, named, means⟩
      refine ⟨_, rfl, ?_⟩
      rw [Filter.eval, named, BooleanExpression.eval, means]
      rfl
  | isIn value values =>
      simp only [visit, bind, Except.bind, pure, Except.pure] at visited
      split at visited
      · cases visited
      rename_i literals given
      cases visited
      refine ⟨_, rfl, ?_⟩
      have sameTests : (values.map fun other =>
          Comparison.equal.eval semantics (value.eval row) (other.eval row)) =
            literals.map fun literal =>
              Comparison.equal.eval semantics (value.eval row) (some literal) := by
        have mapped := congrArg
          (List.map (Comparison.equal.eval semantics (value.eval row)))
          (map_eval_of_mapM row placed.2 given)
        rw [List.map_map, List.map_map] at mapped
        exact mapped
      rw [eval_inPredicate semantics row placed.1, BooleanExpression.eval, sameTests]
  | between value lower upper =>
      simp only [visit, bind, Except.bind, pure, Except.pure] at visited
      split at visited
      · cases visited
      rename_i least leastBuilt
      split at visited
      · cases visited
      rename_i greatest greatestBuilt
      cases visited
      exact eval_conjunction semantics row
        (eval_comparePredicate semantics row placed.1 placed.2.1 leastBuilt)
        (eval_comparePredicate semantics row placed.1 placed.2.2 greatestBuilt)
  | like value pattern => cases noLike

end Meaning

section Filters

/-- A translatable expression never loses rows, and gains none without a `Like`. -/
theorem neverLosesRows_of_translatable (semantics : Semantics Other)
    {expression : BooleanExpression Other} (translatable : expression.Translatable) :
    NeverLosesRows semantics expression := by
  intro result visited
  rcases translatable with rejected | isLike | ⟨noLike, placed⟩
  · rcases (visit_eq_error_iff expression).mpr rejected with ⟨error, raised⟩
    rw [raised] at visited
    cases visited
  · cases expression with
    | like value pattern =>
        cases visited
        exact ⟨fun _ _ => trivial, fun noLike => absurd noLike id⟩
    | _ => cases isLike
  · have same (row : Row Other) : accepts semantics row result ↔
        expression.eval semantics row = .isTrue := by
      rcases eval_visit semantics row noLike placed visited with ⟨filter, rfl, means⟩
      rw [accepts, means, Except.ok.injEq]
    exact ⟨fun row => (same row).mpr, fun _ row => (same row).mp⟩

/-- Texts are ordered as texts and numbers as numbers, and no pattern matches. -/
def plainSemantics : Semantics ℕ where
  compare
    | .text left, .text right => compare left right
    | .other left, .other right => compare left right
    | .text _, .other _ => .lt
    | .other _, .text _ => .gt
  matchesPattern _ _ := false

/-- A conjunction of predicates with their operands in place. -/
theorem neverLosesRows_region :
    NeverLosesRows plainSemantics
      (.and (.compare .equal (.reference "region") (.literal (some (.text "north"))))
        (.not (.between (.reference "price") (.literal (some (.other 1)))
          (.literal (some (.other 5)))))) :=
  neverLosesRows_of_translatable plainSemantics
    (Or.inr (Or.inr ⟨⟨trivial, trivial⟩, ⟨trivial, trivial⟩, trivial, trivial, trivial⟩))

/-- With the literal in the first place the filter reads a column of that name. -/
theorem not_neverLosesRows_reversed :
    ¬NeverLosesRows plainSemantics
      (.compare .equal (.literal (some (.text "north"))) (.reference "region")) := by
  intro never
  let row : Row ℕ := fun column => if column = "region" then some (.text "north") else none
  have kept := (never (some (.predicate .equal (some (.text "north")) (.text "region"))) rfl).1
    row (by decide)
  cases kept

end Filters

end Deltacat.Experimental.Iceberg
