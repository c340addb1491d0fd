import UvgTorrent.Library.Program

/-!
# Depths that are enough

A run whose loops and calls have a bounded depth uses that depth up, or it
does what every deeper run does.
-/

namespace CProgram

section Runs

variable {α β : Type}

/-- `deep` does what `shallow` does that has not used its depth up. -/
def Deepens (shallow deep : Exec α) : Prop :=
  shallow = .error .unfinished ∨ deep = shallow

theorem Deepens.refl (run : Exec α) : Deepens run run :=
  .inr rfl

theorem Deepens.bind {shallow deep : Exec α} {next further : α → Exec β}
    (first : Deepens shallow deep)
    (second : ∀ value, Deepens (next value) (further value)) :
    Deepens (shallow >>= next) (deep >>= further) := by
  rcases first with used | same
  · rw [used]
    exact .inl rfl
  · rw [same]
    cases shallow with
    | ok value =>
        exact second value
    | error stop =>
        exact .refl _

variable {run : Nat → Exec α}

theorem ok_deeper (deepens : ∀ depth, Deepens (run depth) (run (depth + 1)))
    {depth : Nat} {value : α} (answered : run depth = .ok value)
    (more : Nat) : run (depth + more) = .ok value := by
  induction more with
  | zero =>
      exact answered
  | succ more inductionHypothesis =>
      rcases deepens (depth + more) with used | same
      · rw [used] at inductionHypothesis
        cases inductionHypothesis
      · exact same.trans inductionHypothesis

/-- A run has one answer at most. -/
theorem Returns.unique
    (deepens : ∀ depth, Deepens (run depth) (run (depth + 1)))
    {first second : α} (returned : Returns run first)
    (again : Returns run second) : first = second := by
  rcases returned with ⟨depth, answered⟩
  rcases again with ⟨other, repeated⟩
  have deep := ok_deeper deepens answered other
  have same := ok_deeper deepens repeated depth
  rw [Nat.add_comm, deep] at same
  exact Except.ok.inj same

end Runs

section Programs

variable {σ α β : Type} {program : Nat → Prog σ α} {before after : σ}
  {value : α}

/-- From some depth on the program answers, and always the same. -/
def AnswersFrom (program : Nat → Prog σ α) (before : σ) (value : α)
    (after : σ) : Prop :=
  ∃ enough, ∀ depth ≥ enough,
    (program depth).from before = (.ok value, after)

theorem AnswersFrom.always {fixed : Prog σ α}
    (ran : fixed.from before = (.ok value, after)) :
    AnswersFrom (fun _ => fixed) before value after :=
  ⟨0, fun _ _ => ran⟩

theorem AnswersFrom.bind {rest : α → Nat → Prog σ β} {between : σ}
    {answer : β} (first : AnswersFrom program before value between)
    (second : AnswersFrom (rest value) between answer after) :
    AnswersFrom (fun depth => program depth >>= (rest · depth)) before
      answer after := by
  rcases first with ⟨enough, ran⟩
  rcases second with ⟨more, went⟩
  refine ⟨max enough more, fun depth deep => ?_⟩
  rw [bind_from_ok (ran depth (le_of_max_le_left deep))]
  exact went depth (le_of_max_le_right deep)

end Programs

end CProgram
