import Mathlib

/-!
# Procedures with a state and exceptions

A call that raises an exception keeps what it did to the state before, which is
what `EStateM` computes. The rules below take a successful run apart at its
binds, and follow a part of the state (`view`) through procedures that do not
change it.
-/

namespace Deltacat.Library

universe u v

variable {Failure State Value Result View : Type u}

/-- A successful sequence of two computations that may fail. -/
theorem except_bind_eq_ok {Failure : Type v} {first : Except Failure Value}
    {rest : Value → Except Failure Result} {result : Result} :
    (first >>= rest) = .ok result ↔ ∃ value, first = .ok value ∧ rest value = .ok result := by
  cases first <;> simp [bind, Except.bind]

/-- What a computation returns meets a condition, and it fails only if it may. -/
def Yields {Failure : Type v} (mayFail : Prop) (condition : Value → Prop) :
    Except Failure Value → Prop
  | .ok value => condition value
  | .error _ => mayFail

namespace Yields

variable {Failure : Type v} {mayFail mayFailAfter : Prop} {condition weaker : Value → Prop}
  {after : Result → Prop} {computation : Except Failure Value}

theorem bind {rest : Value → Except Failure Result} (first : Yields mayFail condition computation)
    (second : ∀ value, condition value → Yields mayFail after (rest value)) :
    Yields mayFail after (computation >>= rest) := by
  cases computation with
  | error failure => exact first
  | ok value => exact second value first

theorem imp (yields : Yields mayFail condition computation) (fails : mayFail → mayFailAfter)
    (implies : ∀ value, condition value → weaker value) :
    Yields mayFailAfter weaker computation := by
  cases computation with
  | error failure => exact fails yields
  | ok value => exact implies value yields

theorem exists_ok (yields : Yields mayFail condition computation) (cannot : ¬mayFail) :
    ∃ value, computation = .ok value ∧ condition value := by
  cases computation with
  | error failure => exact absurd yields cannot
  | ok value => exact ⟨value, rfl, yields⟩

theorem of_eq_ok (yields : Yields mayFail condition computation) {value : Value}
    (isValue : computation = .ok value) : condition value := by
  subst isValue
  exact yields

end Yields

theorem except_mapM_eq_ok {Failure : Type v} {items : List Value}
    {step : Value → Except Failure Result} {result : Value → Result}
    (succeeds : ∀ item ∈ items, step item = .ok (result item)) :
    items.mapM step = .ok (items.map result) := by
  induction items with
  | nil => rfl
  | cons item items ih =>
      rw [List.mapM_cons, succeeds item List.mem_cons_self,
        ih fun other otherMem => succeeds other (List.mem_cons_of_mem item otherMem)]
      rfl

theorem except_mapM_eq_ok_iff {Failure : Type v} {step : Value → Except Failure Result}
    {items : List Value} {results : List Result} :
    items.mapM step = .ok results ↔
      List.Forall₂ (fun item result => step item = .ok result) items results := by
  induction items generalizing results with
  | nil =>
      rw [List.mapM_nil, List.forall₂_nil_left_iff]
      exact ⟨fun isNil => (Except.ok.inj isNil).symm, fun isNil => by rw [isNil]; rfl⟩
  | cons item items ih =>
      rw [List.mapM_cons, except_bind_eq_ok, List.forall₂_cons_left_iff]
      constructor
      · rintro ⟨result, isResult, afterResult⟩
        rcases except_bind_eq_ok.mp afterResult with ⟨rest, isRest, isCons⟩
        cases isCons
        exact ⟨result, rest, isResult, ih.mp isRest, rfl⟩
      · rintro ⟨result, rest, isResult, areRest, rfl⟩
        exact ⟨result, isResult, except_bind_eq_ok.mpr ⟨rest, ih.mpr areRest, rfl⟩⟩

theorem exists_of_forall₂ {Left Right : Type*} {related : Left → Right → Prop} {lefts : List Left}
    {rights : List Right} (areRelated : List.Forall₂ related lefts rights) {left : Left}
    (leftMem : left ∈ lefts) : ∃ right ∈ rights, related left right := by
  induction areRelated with
  | nil => cases leftMem
  | cons isRelated _ ih =>
      rcases List.mem_cons.mp leftMem with rfl | isLater
      · exact ⟨_, List.mem_cons_self, isRelated⟩
      · rcases ih isLater with ⟨right, rightMem, isRelated⟩
        exact ⟨right, List.mem_cons_of_mem _ rightMem, isRelated⟩

namespace Procedure

theorem bind_eq_ok {first : EStateM Failure State Value}
    {rest : Value → EStateM Failure State Result} {start final : State} {result : Result} :
    (first >>= rest) start = .ok result final ↔
      ∃ value middle, first start = .ok value middle ∧ rest value middle = .ok result final := by
  simp only [bind, EStateM.bind]
  cases first start <;> simp

theorem bind_eq_error {first : EStateM Failure State Value}
    {rest : Value → EStateM Failure State Result} {start final : State} {failure : Failure} :
    (first >>= rest) start = .error failure final ↔
      first start = .error failure final ∨
        ∃ value middle, first start = .ok value middle ∧
          rest value middle = .error failure final := by
  simp only [bind, EStateM.bind]
  cases first start <;> simp

theorem pure_eq_ok {value result : Value} {start final : State} :
    (pure value : EStateM Failure State Value) start = .ok result final ↔
      value = result ∧ start = final := by
  simp [pure, EStateM.pure]

theorem throw_ne_ok {failure : Failure} {result : Value} {start final : State} :
    (throw failure : EStateM Failure State Value) start = .ok result final ↔ False := by
  simp [throw, throwThe, MonadExceptOf.throw, EStateM.throw]

/-- The state that a procedure leaves, whether it returns or raises an exception. -/
def finalState (procedure : EStateM Failure State Value) (start : State) : State :=
  match procedure start with
  | .ok _ final => final
  | .error _ final => final

theorem finalState_of_ok {procedure : EStateM Failure State Value} {start final : State}
    {value : Value} (returns : procedure start = .ok value final) :
    finalState procedure start = final := by
  simp [finalState, returns]

theorem finalState_of_error {procedure : EStateM Failure State Value} {start final : State}
    {failure : Failure} (raises : procedure start = .error failure final) :
    finalState procedure start = final := by
  simp [finalState, raises]

/-- A procedure leaves a part of the state as it is. -/
def Preserves (view : State → View) (procedure : EStateM Failure State Value) : Prop :=
  ∀ start, view (finalState procedure start) = view start

section Preserves

variable {view : State → View}

theorem Preserves.of_ok {procedure : EStateM Failure State Value}
    (preserves : Preserves view procedure) {start final : State} {value : Value}
    (returns : procedure start = .ok value final) : view final = view start := by
  rw [← finalState_of_ok returns]
  exact preserves start

theorem Preserves.of_error {procedure : EStateM Failure State Value}
    (preserves : Preserves view procedure) {start final : State} {failure : Failure}
    (raises : procedure start = .error failure final) : view final = view start := by
  rw [← finalState_of_error raises]
  exact preserves start

theorem preserves_pure (value : Value) :
    Preserves view (pure value : EStateM Failure State Value) :=
  fun _ => rfl

theorem preserves_throw (failure : Failure) :
    Preserves view (throw failure : EStateM Failure State Value) :=
  fun _ => rfl

theorem Preserves.ite {condition : Prop} [Decidable condition]
    {yes no : EStateM Failure State Value} (keepsYes : Preserves view yes)
    (keepsNo : Preserves view no) : Preserves view (if condition then yes else no) := by
  split
  · exact keepsYes
  · exact keepsNo

theorem Preserves.bind {first : EStateM Failure State Value}
    {rest : Value → EStateM Failure State Result} (firstPreserves : Preserves view first)
    (restPreserves : ∀ value, Preserves view (rest value)) :
    Preserves view (first >>= rest) := by
  intro start
  have isFirst := firstPreserves start
  cases returned : first start with
  | error failure middle =>
      have isError : (first >>= rest) start = .error failure middle := by
        simp [Bind.bind, EStateM.bind, returned]
      rw [finalState_of_error isError, ← isFirst, finalState_of_error returned]
  | ok value middle =>
      have isRest : finalState (first >>= rest) start = finalState (rest value) middle := by
        simp [finalState, Bind.bind, EStateM.bind, returned]
      rw [isRest, restPreserves value middle, ← isFirst, finalState_of_ok returned]

end Preserves

end Procedure

end Deltacat.Library
