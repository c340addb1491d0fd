import UvgTorrent.Library.Transition

/-!
# Progress under a schedule

A schedule is an endless list of actions, and an action that the system
cannot take leaves the state as it is.  A rank that helpful actions lower,
and that the others do not raise, bounds how often the system has to be
helped.
-/

namespace Transition

variable {State Action : Type} {step : State → Action → Option State}

/-- The state after the first `n` actions of a schedule. -/
def visited (step : State → Action → Option State) (start : State)
    (schedule : Nat → Action) : Nat → State
  | 0 => start
  | n + 1 =>
      (step (visited step start schedule n) (schedule n)).getD
        (visited step start schedule n)

/-- Until the system is done, a helpful action can be taken and lowers the
rank.  Another action leaves what is helpful as it is, or lowers the rank
too. -/
structure Ranking (step : State → Action → Option State)
    (invariant done : State → Prop) (helps : State → Action → Prop)
    (rank : State → Nat) : Prop where
  preserved : ∀ state action after, invariant state →
    step state action = some after → invariant after
  falls : ∀ state action, invariant state → ¬ done state →
    helps state action →
    ∃ after, step state action = some after ∧ rank after < rank state
  rests : ∀ state action after, invariant state → ¬ done state →
    ¬ helps state action → step state action = some after →
    rank after < rank state ∨
      rank after = rank state ∧ ¬ done after ∧
        ∀ other, helps state other → helps after other

section Schedules

variable {start : State} {schedule : Nat → Action}
  {invariant done : State → Prop} {helps : State → Action → Prop}
  {rank : State → Nat} {n m : Nat}

theorem visited_preserves
    (preserved : ∀ state action after, invariant state →
      step state action = some after → invariant after)
    (holds : invariant start) (n : Nat) :
    invariant (visited step start schedule n) := by
  induction n with
  | zero =>
      exact holds
  | succ n inductionHypothesis =>
      rw [visited]
      cases stepped : step (visited step start schedule n) (schedule n) with
      | none =>
          exact inductionHypothesis
      | some after =>
          exact preserved _ _ _ inductionHypothesis stepped

theorem Ranking.visited (ranking : Ranking step invariant done helps rank)
    (holds : invariant start) (n : Nat) :
    invariant (visited step start schedule n) :=
  visited_preserves ranking.preserved holds n

/-- If there always is help, a run of no more steps than the rank ends it. -/
theorem Ranking.reaches (ranking : Ranking step invariant done helps rank)
    (help : ∀ state, invariant state → ¬ done state →
      ∃ action, helps state action)
    (holds : invariant start) :
    ∃ actions final, actions.length ≤ rank start ∧
      run step start actions = some final ∧ done final := by
  induction bound : rank start using Nat.strong_induction_on
    generalizing start with
  | _ bound inductionHypothesis =>
      by_cases isDone : done start
      · exact ⟨[], start, Nat.zero_le _, rfl, isDone⟩
      · rcases help start holds isDone with ⟨action, helpful⟩
        rcases ranking.falls start action holds isDone helpful with
          ⟨after, stepped, lower⟩
        rcases inductionHypothesis (rank after) (bound ▸ lower)
            (ranking.preserved _ _ _ holds stepped) rfl with
          ⟨actions, final, short, ran, finished⟩
        refine ⟨action :: actions, final, ?_, ?_, finished⟩
        · rw [List.length_cons]
          omega
        · rw [run, stepped]
          exact ran

end Schedules

end Transition
