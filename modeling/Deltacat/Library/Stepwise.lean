import Deltacat.Library.Procedure
import Deltacat.Library.Run

/-!
# Procedures that work by steps

A machine performs one operation after another, and each operation may fail. A
procedure over such a machine looks things up, checks what it has found, and
writes. When it raises an exception, then either the last operation failed, or
the exception is one of its own (`Outcome`). The rules below take a procedure
apart at its binds, to show that its own checks come before its first write
operation (`ChecksFirst`).
-/

namespace Deltacat.Library

universe u v w

variable {State Failure Value Result View : Type u} {Operation : Type v} {Response : Type w}

/-- A step that succeeds. -/
def StepSucceeds (step : State → Operation → State × Except Failure Response) (state : State)
    (operation : Operation) (next : State) : Prop :=
  ∃ response, step state operation = (next, .ok response)

/-- A step that fails. -/
def StepFails (step : State → Operation → State × Except Failure Response) (state final : State) :
    Prop :=
  ∃ operation failure, step state operation = (final, .error failure)

theorem Run.append {step : State → Operation → State → Prop} {start middle final : State}
    {before after : List Operation} (first : Run step start before middle)
    (second : Run step middle after final) : Run step start (before ++ after) final := by
  induction second with
  | nil =>
      rw [List.append_nil]
      exact first
  | snoc _ stepped ih =>
      rw [← List.append_assoc]
      exact Run.snoc ih stepped

/-- What is performed determines the state that is reached. -/
theorem Run.unique {step : State → Operation → State × Except Failure Response}
    {start final other : State} {operations : List Operation}
    (run : Run (StepSucceeds step) start operations final)
    (otherRun : Run (StepSucceeds step) start operations other) : final = other := by
  induction run generalizing other with
  | nil =>
      generalize isNil : ([] : List Operation) = none at otherRun
      cases otherRun with
      | nil => rfl
      | snoc _ _ => simp at isNil
  | snoc _ stepped ih =>
      rcases otherRun.snoc_inv with ⟨middle, before, otherStepped⟩
      rcases stepped with ⟨response, isStep⟩
      rcases otherStepped with ⟨otherResponse, isOther⟩
      rw [ih before, isOther] at isStep
      exact (congrArg Prod.fst isStep).symm

namespace Procedure

section Outcome

variable (step : State → Operation → State × Except Failure Response)

/-- The steps that a procedure performs before it returns, or raises an exception. -/
structure Outcome (returned : List Operation → Prop) (raised : List Operation → Failure → Prop)
    (procedure : EStateM Failure State Value) (start : State) : Prop where
  ofReturn : ∀ {value final}, procedure start = .ok value final →
    ∃ operations, Run (StepSucceeds step) start operations final ∧ returned operations
  ofRaise : ∀ {failure final}, procedure start = .error failure final →
    ∃ operations middle, Run (StepSucceeds step) start operations middle ∧
      (middle = final ∧ raised operations failure ∨ StepFails step middle final)

variable {step}

theorem outcome_pure {returned : List Operation → Prop} {raised : List Operation → Failure → Prop}
    {value : Value} {start : State} (isReturned : returned []) :
    Outcome step returned raised (pure value : EStateM Failure State Value) start where
  ofReturn := by
    intro result final returns
    rcases pure_eq_ok.mp returns with ⟨_, rfl⟩
    exact ⟨[], Run.nil, isReturned⟩
  ofRaise := by
    intro failure final raises
    cases raises

theorem outcome_throw {returned : List Operation → Prop}
    {raised : List Operation → Failure → Prop} {failure : Failure} {start : State}
    (isRaised : raised [] failure) :
    Outcome step returned raised (throw failure : EStateM Failure State Value) start where
  ofReturn := by
    intro result final returns
    cases returns
  ofRaise := by
    intro other final raises
    cases raises
    exact ⟨[], start, Run.nil, Or.inl ⟨rfl, isRaised⟩⟩

theorem Outcome.bind {firstReturned restReturned returned : List Operation → Prop}
    {firstRaised restRaised raised : List Operation → Failure → Prop}
    {first : EStateM Failure State Value} {rest : Value → EStateM Failure State Result}
    {start : State} (isFirst : Outcome step firstReturned firstRaised first start)
    (isRest : ∀ value middle, first start = .ok value middle →
      Outcome step restReturned restRaised (rest value) middle)
    (returns : ∀ before after, firstReturned before → restReturned after →
      returned (before ++ after))
    (raisesFirst : ∀ operations failure, firstRaised operations failure →
      raised operations failure)
    (raisesRest : ∀ before after failure, firstReturned before → restRaised after failure →
      raised (before ++ after) failure) :
    Outcome step returned raised (first >>= rest) start where
  ofReturn := by
    intro result final isReturned
    rcases bind_eq_ok.mp isReturned with ⟨value, middle, firstReturns, restReturns⟩
    rcases isFirst.ofReturn firstReturns with ⟨before, isBefore, beforeReturned⟩
    rcases (isRest value middle firstReturns).ofReturn restReturns with
      ⟨after, isAfter, afterReturned⟩
    exact ⟨before ++ after, isBefore.append isAfter,
      returns before after beforeReturned afterReturned⟩
  ofRaise := by
    intro failure final isRaised
    rcases bind_eq_error.mp isRaised with firstRaises | ⟨value, middle, firstReturns, restRaises⟩
    · rcases isFirst.ofRaise firstRaises with ⟨operations, reached, isRun, own | fails⟩
      · exact ⟨operations, reached, isRun,
          Or.inl ⟨own.1, raisesFirst operations failure own.2⟩⟩
      · exact ⟨operations, reached, isRun, Or.inr fails⟩
    · rcases isFirst.ofReturn firstReturns with ⟨before, isBefore, beforeReturned⟩
      rcases (isRest value middle firstReturns).ofRaise restRaises with
        ⟨after, reached, isAfter, own | fails⟩
      · exact ⟨before ++ after, reached, isBefore.append isAfter,
          Or.inl ⟨own.1, raisesRest before after failure beforeReturned own.2⟩⟩
      · exact ⟨before ++ after, reached, isBefore.append isAfter, Or.inr fails⟩

end Outcome

section ChecksFirst

variable (step : State → Operation → State × Except Failure Response)
  (isWrite : Operation → Bool) (isCheck : Failure → Prop)

/-- Operations that do not write. -/
def OnlyReads (operations : List Operation) : Prop :=
  ∀ operation ∈ operations, isWrite operation = false

/-- A procedure that does not write, whatever it raises. -/
def Reads (procedure : EStateM Failure State Value) (start : State) : Prop :=
  Outcome step (OnlyReads isWrite) (fun operations _ => OnlyReads isWrite operations) procedure
    start

/-- A procedure that makes no checks of its own, whatever it writes. -/
def Writes (procedure : EStateM Failure State Value) (start : State) : Prop :=
  Outcome step (fun _ => True) (fun _ failure => ¬isCheck failure) procedure start

/-- A procedure whose own checks come before its first write operation. -/
def ChecksFirst (procedure : EStateM Failure State Value) (start : State) : Prop :=
  Outcome step (fun _ => True)
    (fun operations failure => isCheck failure → OnlyReads isWrite operations) procedure start

variable {step isWrite isCheck}

theorem OnlyReads.append {before after : List Operation} (first : OnlyReads isWrite before)
    (second : OnlyReads isWrite after) : OnlyReads isWrite (before ++ after) :=
  fun operation isMem => (List.mem_append.mp isMem).elim (first operation) (second operation)

theorem onlyReads_nil : OnlyReads isWrite [] :=
  fun _ isMem => absurd isMem List.not_mem_nil

theorem reads_pure (value : Value) (start : State) :
    Reads step isWrite (pure value : EStateM Failure State Value) start :=
  outcome_pure onlyReads_nil

theorem reads_throw (failure : Failure) (start : State) :
    Reads step isWrite (throw failure : EStateM Failure State Value) start :=
  outcome_throw onlyReads_nil

theorem writes_pure (value : Value) (start : State) :
    Writes step isCheck (pure value : EStateM Failure State Value) start :=
  outcome_pure trivial

theorem writes_throw {failure : Failure} (noCheck : ¬isCheck failure) (start : State) :
    Writes step isCheck (throw failure : EStateM Failure State Value) start :=
  outcome_throw noCheck

variable {first : EStateM Failure State Value} {rest : Value → EStateM Failure State Result}
  {start : State}

theorem Reads.bind (isFirst : Reads step isWrite first start)
    (isRest : ∀ value middle, first start = .ok value middle →
      Reads step isWrite (rest value) middle) :
    Reads step isWrite (first >>= rest) start :=
  Outcome.bind isFirst isRest (fun _ _ => OnlyReads.append) (fun _ _ reads => reads)
    (fun _ _ _ => OnlyReads.append)

theorem Writes.bind (isFirst : Writes step isCheck first start)
    (isRest : ∀ value middle, first start = .ok value middle →
      Writes step isCheck (rest value) middle) :
    Writes step isCheck (first >>= rest) start :=
  Outcome.bind isFirst isRest (fun _ _ _ _ => trivial) (fun _ _ noCheck => noCheck)
    (fun _ _ _ _ noCheck => noCheck)

/-- Whatever follows a lookup makes its own checks first. -/
theorem Reads.bind_checksFirst (isFirst : Reads step isWrite first start)
    (isRest : ∀ value middle, first start = .ok value middle →
      ChecksFirst step isWrite isCheck (rest value) middle) :
    ChecksFirst step isWrite isCheck (first >>= rest) start :=
  Outcome.bind isFirst isRest (fun _ _ _ _ => trivial) (fun _ _ reads _ => reads)
    (fun _ _ _ reads after isChecked => reads.append (after isChecked))

/-- After checks and writes there may be more writes, but no more checks. -/
theorem ChecksFirst.bind_writes (isFirst : ChecksFirst step isWrite isCheck first start)
    (isRest : ∀ value middle, first start = .ok value middle →
      Writes step isCheck (rest value) middle) :
    ChecksFirst step isWrite isCheck (first >>= rest) start :=
  Outcome.bind isFirst isRest (fun _ _ _ _ => trivial) (fun _ _ checksFirst => checksFirst)
    (fun _ _ _ _ noCheck isChecked => absurd isChecked noCheck)

theorem Reads.checksFirst (reads : Reads step isWrite first start) :
    ChecksFirst step isWrite isCheck first start where
  ofReturn := fun returns => (reads.ofReturn returns).imp fun _ run => ⟨run.1, trivial⟩
  ofRaise := by
    intro failure final raises
    rcases reads.ofRaise raises with ⟨operations, middle, isRun, own | fails⟩
    · exact ⟨operations, middle, isRun, Or.inl ⟨own.1, fun _ => own.2⟩⟩
    · exact ⟨operations, middle, isRun, Or.inr fails⟩

theorem Writes.checksFirst (writes : Writes step isCheck first start) :
    ChecksFirst step isWrite isCheck first start where
  ofReturn := writes.ofReturn
  ofRaise := by
    intro failure final raises
    rcases writes.ofRaise raises with ⟨operations, middle, isRun, own | fails⟩
    · exact ⟨operations, middle, isRun,
        Or.inl ⟨own.1, fun isChecked => absurd isChecked own.2⟩⟩
    · exact ⟨operations, middle, isRun, Or.inr fails⟩

end ChecksFirst

section Observes

/-- A procedure that leaves a part of the state as it is, and returns what depends on it alone. -/
def Observes (view : State → View) (procedure : EStateM Failure State Value) : Prop :=
  ∀ ⦃start other final value⦄, view start = view other → procedure start = .ok value final →
    view final = view start ∧ ∃ after, procedure other = .ok value after

variable {view : State → View}

theorem observes_pure (value : Value) :
    Observes view (pure value : EStateM Failure State Value) := by
  intro start other final result same returns
  rcases pure_eq_ok.mp returns with ⟨rfl, rfl⟩
  exact ⟨rfl, other, rfl⟩

theorem observes_throw (failure : Failure) :
    Observes view (throw failure : EStateM Failure State Value) := by
  intro start other final result same returns
  cases returns

theorem Observes.bind {first : EStateM Failure State Value}
    {rest : Value → EStateM Failure State Result} (isFirst : Observes view first)
    (isRest : ∀ value, Observes view (rest value)) : Observes view (first >>= rest) := by
  intro start other final result same returns
  rcases bind_eq_ok.mp returns with ⟨value, middle, firstReturns, restReturns⟩
  rcases isFirst same firstReturns with ⟨sameMiddle, otherMiddle, otherReturns⟩
  have sameOther := (isFirst same.symm otherReturns).1
  have sameMiddles : view middle = view otherMiddle :=
    sameMiddle.trans (same.trans sameOther.symm)
  rcases isRest value sameMiddles restReturns with ⟨sameFinal, after, afterReturns⟩
  exact ⟨sameFinal.trans sameMiddle, after,
    bind_eq_ok.mpr ⟨value, otherMiddle, otherReturns, afterReturns⟩⟩

end Observes

end Procedure

end Deltacat.Library
