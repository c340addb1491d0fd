import UvgTorrent.Library.Blocks

/-!
# Programs with a ledger

A program that allocates runs on its state and on a ledger of blocks.  As long
as every allocation succeeds it can be compared with a program that leaves the
ledger out.
-/

namespace CBlocks

open CProgram

structure Ledger (σ : Type) where
  state : σ
  blocks : Blocks

section Parts

variable {σ τ α β : Type}

def onState (program : Prog σ α) : Prog (Ledger σ) α :=
  onPart Ledger.state (fun state ledger => { ledger with state }) program

def onBlocks (program : Prog Blocks α) : Prog (Ledger σ) α :=
  onPart Ledger.blocks (fun blocks ledger => { ledger with blocks }) program

/-- Run a program with a ledger on a part of the state. -/
def onInner (part : σ → τ) (restore : τ → σ → σ)
    (program : Prog (Ledger τ) α) : Prog (Ledger σ) α :=
  onPart (fun ledger => ⟨part ledger.state, ledger.blocks⟩)
    (fun inner ledger => ⟨restore inner.state ledger.state, inner.blocks⟩)
    program

/-- A condition on the state and one on the blocks. -/
structure Both (state : σ → Prop) (blocks : Blocks → Prop)
    (ledger : Ledger σ) : Prop where
  state : state ledger.state
  blocks : blocks ledger.blocks

end Parts

/-! ## What a part of the ledger is left alone by -/

section Frames

variable {σ τ α : Type} {before : σ → Prop} {owes : Blocks → Prop}

end Frames

/-! ## The same run without the ledger -/

/-- Every allocation to come succeeds. -/
def Granting (blocks : Blocks) : Prop :=
  blocks.grants = Stream'.const true

/-- The two runs end in one state, with related answers or with one stop. -/
inductive Agrees {σ α β : Type} (related : α → β → Prop) :
    Exec α × Ledger σ → Exec β × σ → Prop
  | returns {answer : α} {plain : β} {state : σ} {blocks : Blocks}
      (same : related answer plain) (granting : Granting blocks) :
      Agrees related (.ok answer, ⟨state, blocks⟩) (.ok plain, state)
  | stops {stop : Stop} {state : σ} {blocks : Blocks} :
      Agrees related (.error stop, ⟨state, blocks⟩) (.error stop, state)

/-- With memory for everything the program runs as the one without a
ledger. -/
def Mirrors {σ α β : Type} (related : α → β → Prop)
    (program : Prog (Ledger σ) α) (plain : Prog σ β) : Prop :=
  ∀ state blocks, Granting blocks →
    Agrees related (program.from ⟨state, blocks⟩) (plain.from state)

/-- With memory for everything the program on the blocks returns. -/
def Unfailing {α : Type} (program : Prog Blocks α) (good : α → Prop) : Prop :=
  Contract Granting program
    (fun answer blocks => good answer ∧ Granting blocks) fun _ => False

section Mirrors

variable {σ τ α β γ δ : Type} {related : α → β → Prop}
  {follows : γ → δ → Prop}

theorem Mirrors.pure {answer : α} {plain : β} (same : related answer plain) :
    Mirrors related (Pure.pure answer : Prog (Ledger σ) α)
      (Pure.pure plain) :=
  fun _ _ granting => .returns same granting

theorem Mirrors.liftExec (run : Exec α) :
    Mirrors Eq (liftExec run : Prog (Ledger σ) α) (liftExec run) := by
  intro state blocks granting
  rw [liftExec_from, liftExec_from]
  cases run with
  | ok value => exact .returns rfl granting
  | error stop => exact .stops

theorem Mirrors.onState (program : Prog σ α) :
    Mirrors Eq (onState program) program := by
  intro state blocks granting
  rw [CBlocks.onState, onPart_from]
  cases program.from state with
  | mk answer final =>
      cases answer with
      | ok value => exact .returns rfl granting
      | error stop => exact .stops

theorem Mirrors.onInner {part : σ → τ} {restore : τ → σ → σ}
    {program : Prog (Ledger τ) α} {plain : Prog τ β}
    (mirrors : Mirrors related program plain) :
    Mirrors related (onInner part restore program)
      (onPart part restore plain) := by
  intro state blocks granting
  have agrees := mirrors (part state) blocks granting
  rw [CBlocks.onInner, onPart_from, onPart_from]
  revert agrees
  generalize program.from ⟨part state, blocks⟩ = run
  generalize plain.from (part state) = plainRun
  intro agrees
  cases agrees with
  | returns same granting => exact .returns same granting
  | stops => exact .stops

theorem Mirrors.bind {program : Prog (Ledger σ) α} {plain : Prog σ β}
    {rest : α → Prog (Ledger σ) γ} {plainRest : β → Prog σ δ}
    (first : Mirrors related program plain)
    (second : ∀ answer plainAnswer, related answer plainAnswer →
      Mirrors follows (rest answer) (plainRest plainAnswer)) :
    Mirrors follows (program >>= rest) (plain >>= plainRest) := by
  intro state blocks granting
  have agrees := first state blocks granting
  rw [bind_from, bind_from]
  revert agrees
  generalize program.from ⟨state, blocks⟩ = run
  generalize plain.from state = plainRun
  intro agrees
  cases agrees with
  | returns same granting => exact second _ _ same _ _ granting
  | stops => exact .stops

/-- What happens to the blocks alone is not seen without the ledger. -/
theorem Mirrors.silent {program : Prog Blocks α} {good : α → Prop}
    {rest : α → Prog (Ledger σ) γ} {plain : Prog σ δ}
    (unfailing : Unfailing program good)
    (second : ∀ answer, good answer → Mirrors follows (rest answer) plain) :
    Mirrors follows (onBlocks program >>= rest) plain := by
  intro state blocks granting
  have reached := unfailing blocks granting
  rw [bind_from, onBlocks, onPart_from]
  cases outcome : program.from blocks with
  | mk answer final =>
      rw [outcome] at reached
      cases answer with
      | ok value => exact second value reached.1 state final reached.2
      | error stop => exact reached.elim

end Mirrors

/-! ## The same answer, whatever is refused -/

/-- An answer that is not bad is given without the ledger as well, and leaves
the same state. -/
def Shows {σ α β : Type} (related : α → β → Prop)
    (program : Prog (Ledger σ) α) (plain : Prog σ β) (bad : α → Prop) : Prop :=
  ∀ state blocks answer final,
    program.from ⟨state, blocks⟩ = (.ok answer, final) →
    bad answer ∨ ∃ plainAnswer, related answer plainAnswer ∧
      plain.from state = (.ok plainAnswer, final.state)

section Shows

variable {σ τ α β γ δ : Type} {related : γ → δ → Prop} {bad : γ → Prop}

theorem Shows.pure {answer : γ} {plain : δ} (same : related answer plain) :
    Shows related (Pure.pure answer : Prog (Ledger σ) γ) (Pure.pure plain)
      bad := by
  rintro state blocks _ _ ⟨⟩
  exact .inr ⟨plain, same, rfl⟩

theorem Shows.stop {stop : Stop} {plain : Prog σ δ} :
    Shows related (liftExec (.error stop)) plain bad := by
  rintro state blocks _ _ ⟨⟩

theorem Shows.spoilt {program : Prog (Ledger σ) γ} {plain : Prog σ δ}
    (answers : AnswersWith program bad) : Shows related program plain bad := by
  intro state blocks answer final ran
  have reached := answers ⟨state, blocks⟩ trivial
  rw [ran] at reached
  exact .inl reached

/-- What happens to the state alone, with what is known of its answer. -/
theorem Shows.onStateWith {program : Prog σ α} {good : α → Prop}
    {rest : α → Prog (Ledger σ) γ} {plainRest : α → Prog σ δ}
    (answers : AnswersWith program good)
    (continued : ∀ answer, good answer →
      Shows related (rest answer) (plainRest answer) bad) :
    Shows related (onState program >>= rest) (program >>= plainRest) bad := by
  intro state blocks answer final ran
  have reached := answers state trivial
  rw [bind_from, CBlocks.onState, onPart_from] at ran
  rw [bind_from]
  revert reached ran
  generalize program.from state = run
  intro ran reached
  rcases run with ⟨middle, after⟩
  cases middle with
  | ok value => exact continued value reached after blocks answer final ran
  | error stop => cases ran

theorem Shows.onState {program : Prog σ α} {rest : α → Prog (Ledger σ) γ}
    {plainRest : α → Prog σ δ}
    (continued : ∀ answer, Shows related (rest answer) (plainRest answer) bad) :
    Shows related (onState program >>= rest) (program >>= plainRest) bad :=
  .onStateWith (.any program) fun answer _ => continued answer

theorem Shows.liftExec {run : Exec α} {rest : α → Prog (Ledger σ) γ}
    {plainRest : α → Prog σ δ}
    (continued : ∀ answer, Shows related (rest answer) (plainRest answer) bad) :
    Shows related (liftExec run >>= rest) (liftExec run >>= plainRest) bad := by
  cases run with
  | ok value => exact continued value
  | error stop => exact .stop

/-- What happens to the blocks alone, with what is known of its answer. -/
theorem Shows.silent {program : Prog Blocks α} {good : α → Prop}
    {rest : α → Prog (Ledger σ) γ} {plain : Prog σ δ}
    (answers : AnswersWith program good)
    (continued : ∀ answer, good answer →
      Shows related (rest answer) plain bad) :
    Shows related (onBlocks program >>= rest) plain bad := by
  intro state blocks answer final ran
  have reached := answers blocks trivial
  rw [bind_from, onBlocks, onPart_from] at ran
  revert reached ran
  generalize program.from blocks = run
  intro ran reached
  rcases run with ⟨middle, after⟩
  cases middle with
  | ok value => exact continued value reached state after answer final ran
  | error stop => cases ran

/-- What happens to the blocks in front of an answer. -/
theorem Shows.finish {program : Prog Blocks α} {answer : γ} {plain : δ}
    (same : related answer plain) :
    Shows related
      (onBlocks program >>= fun _ => Pure.pure answer : Prog (Ledger σ) γ)
      (Pure.pure plain) bad :=
  .silent (.any program) fun _ _ => .pure same

theorem Shows.bind {between : α → β → Prop} {spoilt : α → Prop}
    {program : Prog (Ledger σ) α} {plain : Prog σ β}
    {rest : α → Prog (Ledger σ) γ} {plainRest : β → Prog σ δ}
    (first : Shows between program plain spoilt)
    (spoils : ∀ answer, spoilt answer → AnswersWith (rest answer) bad)
    (continued : ∀ answer plainAnswer, between answer plainAnswer →
      Shows related (rest answer) (plainRest plainAnswer) bad) :
    Shows related (program >>= rest) (plain >>= plainRest) bad := by
  intro state blocks answer final ran
  have reached := first state blocks
  rw [bind_from] at ran
  revert ran reached
  generalize program.from ⟨state, blocks⟩ = run
  intro ran reached
  rcases run with ⟨middle, after⟩
  cases middle with
  | error stop => cases ran
  | ok value =>
      dsimp only at ran
      rcases reached value after rfl with spoiled | ⟨_, same, plainRan⟩
      · have spoils := spoils value spoiled after trivial
        rw [ran] at spoils
        exact .inl spoils
      · rw [bind_from_ok plainRan]
        exact continued value _ same after.state after.blocks answer final ran

theorem Shows.onInner {part : σ → τ} {restore : τ → σ → σ}
    {program : Prog (Ledger τ) γ} {plain : Prog τ δ}
    (shows : Shows related program plain bad) :
    Shows related (onInner part restore program) (onPart part restore plain)
      bad := by
  intro state blocks answer final ran
  have reached := shows (part state) blocks answer
  rw [CBlocks.onInner, onPart_from] at ran
  rw [onPart_from]
  revert reached ran
  generalize program.from ⟨part state, blocks⟩ = run
  intro ran reached
  rcases run with ⟨middle, after⟩
  cases ran
  rcases reached after rfl with spoilt | ⟨plainAnswer, same, plainRan⟩
  · exact .inl spoilt
  · rw [plainRan]
    exact .inr ⟨plainAnswer, same, rfl⟩

/-- What is known of the run with the ledger, beside the run without. -/
theorem Shows.contract {program : Prog (Ledger σ) γ} {plain : Prog σ δ}
    {before : Ledger σ → Prop} {after : γ → Ledger σ → Prop}
    (shows : Shows related program plain bad)
    (contract : Contract before program after fun _ => True) (state : σ) :
    Contract (fun ledger => ledger.state = state ∧ before ledger) program
      (fun answer ledger => after answer ledger ∧
        (bad answer ∨ ∃ plainAnswer, related answer plainAnswer ∧
          plain.from state = (.ok plainAnswer, ledger.state)))
      fun _ => True := by
  rintro ledger ⟨same, holds⟩
  have reached := contract ledger holds
  have shown := shows ledger.state ledger.blocks
  rw [same] at shown
  rcases ledger with ⟨_, blocks⟩
  cases same
  revert reached shown
  generalize program.from _ = run
  intro reached shown
  rcases run with ⟨answer, final⟩
  cases answer with
  | ok value => exact ⟨reached, shown value final rfl⟩
  | error stop => trivial

end Shows

section Unfailing

variable {α β : Type}

theorem Unfailing.pure {good : α → Prop} {answer : α} (holds : good answer) :
    Unfailing (Pure.pure answer) good :=
  fun _ granting => ⟨holds, granting⟩

theorem Unfailing.bind {program : Prog Blocks α} {good : α → Prop}
    {rest : α → Prog Blocks β} {after : β → Prop}
    (first : Unfailing program good)
    (second : ∀ answer, good answer → Unfailing (rest answer) after) :
    Unfailing (program >>= rest) after := by
  apply Contract.bind first
  rintro answer blocks ⟨holds, granting⟩
  exact second answer holds blocks granting

section Objects

variable {Object : Type} {good : Object → Prop}
  {destroy : Object → Prog Blocks Unit}

end Objects

end Unfailing

end CBlocks
