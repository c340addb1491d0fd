import Mathlib.Algebra.Order.Ring.Int

/-!
# Runs of a transition system

An action that the system cannot take in a state ends the run.
-/

namespace Transition

variable {State Action : Type} {step : State → Action → Option State}

/-- The state after a list of actions. -/
def run (step : State → Action → Option State) :
    State → List Action → Option State
  | state, [] => some state
  | state, action :: rest =>
      (step state action).bind fun after => run step after rest

theorem run_cons {state final : State} {action : Action}
    {rest : List Action}
    (ran : run step state (action :: rest) = some final) :
    ∃ after, step state action = some after ∧
      run step after rest = some final :=
  Option.bind_eq_some_iff.mp ran

/-- What every action preserves holds at the end of every run. -/
theorem run_preserves {invariant : State → Prop}
    (preserved : ∀ state action after, invariant state →
      step state action = some after → invariant after)
    {state final : State} {actions : List Action} (holds : invariant state)
    (ran : run step state actions = some final) : invariant final := by
  induction actions generalizing state with
  | nil =>
      cases ran
      exact holds
  | cons action rest inductionHypothesis =>
      rcases run_cons ran with ⟨after, stepped, further⟩
      exact inductionHypothesis (preserved _ _ _ holds stepped) further

end Transition
