import Mathlib.Data.List.Induction

/-!
# Runs of a step relation

Shared vocabulary for statements about whole runs. A machine is a relation
`step` between a state, an event and the next state; `Run step` is its closure
over a list of events, grown at the end so that an induction on a run exposes
the last step. `Guarded` restricts a step relation to the steps that meet a
condition on the state before the step and on the event, which is how a
property that holds only under a discipline of the callers is stated.
-/

namespace Deltacat.Library

universe u v

variable {State : Type u} {Event : Type v}

/-- The states reached from a start state by performing the events in order. -/
inductive Run (step : State → Event → State → Prop) (start : State) : List Event → State → Prop
  | nil : Run step start [] start
  | snoc {middle final : State} {events : List Event} {event : Event} :
      Run step start events middle → step middle event final →
        Run step start (events ++ [event]) final

/-- The steps of `step` that start in a state and on an event meeting `condition`. -/
def Guarded (condition : State → Event → Prop) (step : State → Event → State → Prop) :
    State → Event → State → Prop :=
  fun state event next => condition state event ∧ step state event next

/-- A partial step function that gives up when the condition is not met. -/
def guardedStep (condition : State → Event → Prop)
    [∀ state event, Decidable (condition state event)] (next : State → Event → Option State)
    (state : State) (event : Event) : Option State :=
  if condition state event then next state event else none

namespace Run

variable {step : State → Event → State → Prop}

/-- A property that every step preserves holds in every state a run reaches. -/
theorem invariant {property : State → Prop} {start final : State} {events : List Event}
    (run : Run step start events final) (initially : property start)
    (preserved : ∀ state event next, property state → step state event next → property next) :
    property final := by
  induction run with
  | nil => exact initially
  | snoc _ stepped ih => exact preserved _ _ _ ih stepped

/-- Runs may be compared step by step. -/
theorem mono {other : State → Event → State → Prop} {start final : State}
    {events : List Event} (run : Run step start events final)
    (weaker : ∀ state event next, step state event next → other state event next) :
    Run other start events final := by
  induction run with
  | nil => exact Run.nil
  | snoc _ stepped ih => exact Run.snoc ih (weaker _ _ _ stepped)

/-- The last step of a nonempty run. -/
theorem snoc_inv {start final : State} {events : List Event} {event : Event}
    (run : Run step start (events ++ [event]) final) :
    ∃ middle, Run step start events middle ∧ step middle event final := by
  generalize grown : events ++ [event] = allEvents at run
  cases run with
  | nil => simp at grown
  | snoc before stepped =>
      rcases List.append_inj' grown rfl with ⟨rfl, lastEq⟩
      cases lastEq
      exact ⟨_, before, stepped⟩

/-- A machine whose steps are those of a function reaches what folding the function gives. -/
theorem eq_foldl {next : State → Event → State} {start final : State} {events : List Event}
    (run : Run step start events final)
    (determined : ∀ state event after, step state event after → after = next state event) :
    final = events.foldl next start := by
  induction run with
  | nil => rfl
  | snoc _ stepped ih =>
      rw [List.foldl_append, ← ih]
      exact determined _ _ _ stepped

/-- Performing the steps of a partial function one after the other is a run. -/
theorem of_foldlM {next : State → Event → Option State} {start : State} (events : List Event)
    (performed : (events.foldlM next start).isSome) :
    Run (fun state event after => next state event = some after) start events
      ((events.foldlM next start).get performed) := by
  induction events using List.reverseRecOn with
  | nil => exact Run.nil
  | append_singleton events event ih =>
      have split : (events ++ [event]).foldlM next start =
          (events.foldlM next start).bind fun state => next state event := by
        simp [List.foldlM_append]
      have before : (events.foldlM next start).isSome := by
        rw [split] at performed
        exact Option.isSome_of_isSome_bind performed
      refine Run.snoc (ih before) ?_
      rw [Option.some_get, split]
      rcases Option.isSome_iff_exists.mp before with ⟨state, reached⟩
      simp [reached]

theorem of_foldlM_eq_some {next : State → Event → Option State} {start final : State}
    {events : List Event} (performed : events.foldlM next start = some final) :
    Run (fun state event after => next state event = some after) start events final := by
  have isPerformed : (events.foldlM next start).isSome := by simp [performed]
  have run := of_foldlM events isPerformed
  simpa only [performed, Option.get_some] using run

/-- Performing guarded steps of a partial function is a run of the guarded machine. -/
theorem of_foldlM_guardedStep {next : State → Event → Option State}
    {condition : State → Event → Prop} [∀ state event, Decidable (condition state event)]
    {start final : State} {events : List Event}
    (performed : events.foldlM (guardedStep condition next) start = some final) :
    Run (Guarded condition fun state event after => next state event = some after) start events
      final := by
  apply (of_foldlM_eq_some performed).mono
  intro state event after stepped
  simp only [guardedStep] at stepped
  split at stepped
  · rename_i met
    exact ⟨met, stepped⟩
  · cases stepped

end Run

end Deltacat.Library
