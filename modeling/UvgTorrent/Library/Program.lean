import Mathlib.Algebra.Order.Ring.Int
import Mathlib.Tactic.ByContra
import Mathlib.Tactic.Tauto

/-!
# Programs that may stop early

A run of a C function either reaches its `return` or stops: it dereferences
`NULL`, fails an assertion, reads or copies outside an object, or the depth
allowed to its loops and calls is used up.  `Exec` is the type of such runs
and `Prog` adds a state that survives the stop, so that a trace kept in the
state can be inspected whatever the run came to.
-/

namespace CProgram

/-- Why a run does not reach its `return`. -/
inductive Stop where
  | nullPointer
  | abort
  | readPast
  | writePast
  | uninitialised
  | badSize
  | exited
  | unfinished
  deriving DecidableEq, Repr

/-- `EXIT_SUCCESS` and `EXIT_FAILURE`. -/
inductive ExitCode where
  | success
  | failure
  deriving DecidableEq, Repr

/-- The number of an exit code. -/
def ExitCode.value : ExitCode → Nat
  | .success => 0
  | .failure => 1

abbrev Exec := Except Stop

/-- A program over the state `σ`: its answer or its stop, and the state it
leaves behind in either case. -/
abbrev Prog (σ : Type) := ExceptT Stop (StateM σ)

/-- The run returns `value` at some allowed depth. -/
def Returns {α : Type} (run : Nat → Exec α) (value : α) : Prop :=
  ∃ depth, run depth = .ok value

section Exec

variable {α β : Type}

@[simp]
theorem ok_bind (value : α) (rest : α → Exec β) :
    ((.ok value : Exec α) >>= rest) = rest value :=
  rfl

@[simp]
theorem error_bind (stop : Stop) (rest : α → Exec β) :
    ((.error stop : Exec α) >>= rest) = .error stop :=
  rfl

@[simp]
theorem pure_exec (value : α) : (pure value : Exec α) = .ok value :=
  rfl

theorem bind_eq_ok_iff (run : Exec α) (rest : α → Exec β) (value : β) :
    (run >>= rest) = .ok value ↔
      ∃ middle, run = .ok middle ∧ rest middle = .ok value := by
  cases run with
  | ok middle => simp
  | error stop => simp

end Exec

section Prog

variable {σ α β : Type}

/-- Run a program from a state. -/
def Prog.from (program : Prog σ α) (state : σ) : Exec α × σ :=
  program state

/-- Answer with the run of an `Exec`, leaving the state alone. -/
def liftExec (run : Exec α) : Prog σ α :=
  fun state => (run, state)

def getState : Prog σ σ :=
  fun state => (.ok state, state)

def setState (state : σ) : Prog σ Unit :=
  fun _ => (.ok (), state)

def modifyState (change : σ → σ) : Prog σ Unit :=
  fun state => (.ok (), change state)

/-- Run a program on a part of a larger state. -/
def onPart {τ : Type} (part : σ → τ) (restore : τ → σ → σ)
    (program : Prog τ α) : Prog σ α :=
  fun state =>
    let result := program.from (part state)
    (result.1, restore result.2 state)

@[simp]
theorem pure_from (value : α) (state : σ) :
    (pure value : Prog σ α).from state = (.ok value, state) :=
  rfl

@[simp]
theorem liftExec_from (run : Exec α) (state : σ) :
    (liftExec run : Prog σ α).from state = (run, state) :=
  rfl

@[simp]
theorem getState_from (state : σ) :
    (getState : Prog σ σ).from state = (.ok state, state) :=
  rfl

@[simp]
theorem setState_from (before after : σ) :
    (setState after : Prog σ Unit).from before = (.ok (), after) :=
  rfl

@[simp]
theorem modifyState_from (change : σ → σ) (state : σ) :
    (modifyState change : Prog σ Unit).from state =
      (.ok (), change state) :=
  rfl

@[simp]
theorem onPart_from {τ : Type} (part : σ → τ) (restore : τ → σ → σ)
    (program : Prog τ α) (state : σ) :
    (onPart part restore program).from state =
      ((program.from (part state)).1,
        restore (program.from (part state)).2 state) :=
  rfl

theorem bind_from (program : Prog σ α) (rest : α → Prog σ β) (state : σ) :
    (program >>= rest).from state =
      match program.from state with
      | (.ok value, after) => (rest value).from after
      | (.error stop, after) => (.error stop, after) := by
  have unfolded : (program >>= rest).from state =
      ExceptT.bindCont rest (program state).1 (program state).2 :=
    rfl
  rw [unfolded]
  unfold Prog.from
  cases outcome : program state with
  | mk answer after =>
      cases answer with
      | ok value => rfl
      | error stop => rfl

theorem bind_from_ok {program : Prog σ α} {state after : σ} {value : α}
    (finished : program.from state = (.ok value, after))
    (rest : α → Prog σ β) :
    (program >>= rest).from state = (rest value).from after := by
  rw [bind_from, finished]

theorem bind_from_error {program : Prog σ α} {state after : σ} {stop : Stop}
    (stopped : program.from state = (.error stop, after))
    (rest : α → Prog σ β) :
    (program >>= rest).from state = (.error stop, after) := by
  rw [bind_from, stopped]

theorem bind_from_stops {program : Prog σ α} {state : σ} {stop : Stop}
    (stopped : (program.from state).1 = .error stop)
    (rest : α → Prog σ β) :
    ((program >>= rest).from state).1 = .error stop := by
  rw [bind_from]
  cases outcome : program.from state with
  | mk answer after =>
      rw [outcome] at stopped
      cases stopped
      rfl

end Prog

/-! ## Contracts over the states a run may leave -/

section Contract

variable {σ α β : Type}

/-- From every state in `before` the program either answers and leaves a
state related to the answer by `after`, or stops in a state in `stopped`. -/
def Contract (before : σ → Prop) (program : Prog σ α)
    (after : α → σ → Prop) (stopped : σ → Prop) : Prop :=
  ∀ state, before state →
    match program.from state with
    | (.ok value, final) => after value final
    | (.error _, final) => stopped final

theorem Contract.pure {before : σ → Prop} {after : α → σ → Prop}
    {stopped : σ → Prop} {value : α}
    (holds : ∀ state, before state → after value state) :
    Contract before (Pure.pure value) after stopped :=
  holds

theorem Contract.bind {before : σ → Prop} {program : Prog σ α}
    {between : α → σ → Prop} {rest : α → Prog σ β}
    {after : β → σ → Prop} {stopped : σ → Prop}
    (first : Contract before program between stopped)
    (second : ∀ value, Contract (between value) (rest value) after stopped) :
    Contract before (program >>= rest) after stopped := by
  intro state holds
  have reached := first state holds
  rw [bind_from]
  split at reached
  · rename_i value middle outcome
    exact second value middle reached
  · exact reached

theorem Contract.strengthen {before weaker : σ → Prop} {program : Prog σ α}
    {after : α → σ → Prop} {stopped : σ → Prop}
    (contract : Contract weaker program after stopped)
    (implied : ∀ state, before state → weaker state) :
    Contract before program after stopped :=
  fun state holds => contract state (implied state holds)

theorem Contract.weaken {before : σ → Prop} {program : Prog σ α}
    {after weakerAfter : α → σ → Prop} {stopped weakerStopped : σ → Prop}
    (contract : Contract before program after stopped)
    (answers : ∀ value state, after value state → weakerAfter value state)
    (stops : ∀ state, stopped state → weakerStopped state) :
    Contract before program weakerAfter weakerStopped := by
  intro state holds
  have reached := contract state holds
  split at reached
  · exact answers _ _ reached
  · exact stops _ reached

theorem Contract.liftExec {before : σ → Prop} {run : Exec α}
    {after : α → σ → Prop} {stopped : σ → Prop}
    (answers : ∀ value state, run = .ok value → before state →
      after value state)
    (stops : ∀ state, before state → stopped state) :
    Contract before (liftExec run) after stopped := by
  intro state holds
  rw [liftExec_from]
  cases ran : run with
  | ok value => exact answers value state ran holds
  | error stop => exact stops state holds

theorem Contract.stop {before : σ → Prop} {reason : Stop}
    {after : α → σ → Prop} {stopped : σ → Prop}
    (stops : ∀ state, before state → stopped state) :
    Contract before (CProgram.liftExec (.error reason)) after stopped :=
  stops

theorem Contract.ends {before final : σ → Prop} {program : Prog σ α}
    (contract : Contract before program (fun _ => final) final) {state : σ}
    (holds : before state) : final (program.from state).2 := by
  have reached := contract state holds
  cases outcome : program.from state with
  | mk answer after =>
      rw [outcome] at reached
      cases answer with
      | ok value => exact reached
      | error stop => exact reached

theorem Contract.onPart {τ : Type} {part : σ → τ} {restore : τ → σ → σ}
    (restored : ∀ value state, part (restore value state) = value)
    {before : τ → Prop} {program : Prog τ α} {after : α → τ → Prop}
    {stopped : τ → Prop} (contract : Contract before program after stopped) :
    Contract (fun state => before (part state)) (onPart part restore program)
      (fun value state => after value (part state))
      (fun state => stopped (part state)) := by
  intro state holds
  have reached := contract (part state) holds
  rw [onPart_from]
  cases outcome : program.from (part state) with
  | mk answer final =>
      rw [outcome] at reached
      cases answer with
      | ok value =>
          show after value (part (restore final state))
          rw [restored]
          exact reached
      | error stop =>
          show stopped (part (restore final state))
          rw [restored]
          exact reached

theorem Contract.getState {before : σ → Prop} {stopped : σ → Prop} :
    Contract before getState
      (fun value state => value = state ∧ before state) stopped :=
  fun _ holds => ⟨rfl, holds⟩

theorem Contract.modifyState {before : σ → Prop} {change : σ → σ}
    {after : Unit → σ → Prop} {stopped : σ → Prop}
    (changed : ∀ state, before state → after () (change state)) :
    Contract before (modifyState change) after stopped :=
  changed

end Contract

/-! ## Answers from any state -/

section AnswersWith

variable {σ α β : Type} {good : α → Prop}

/-- Wherever the program starts, its answer is good. -/
def AnswersWith (program : Prog σ α) (good : α → Prop) : Prop :=
  Contract (fun _ => True) program (fun answer _ => good answer)
    fun _ => True

theorem AnswersWith.any (program : Prog σ α) :
    AnswersWith program fun _ => True := by
  intro state _
  split
  · trivial
  · trivial

theorem AnswersWith.pure {answer : α} (holds : good answer) :
    AnswersWith (Pure.pure answer : Prog σ α) good :=
  fun _ _ => holds

theorem AnswersWith.liftExec {run : Exec α}
    (answers : ∀ value, run = .ok value → good value) :
    AnswersWith (CProgram.liftExec run : Prog σ α) good :=
  Contract.liftExec (fun value _ ran _ => answers value ran)
    fun _ _ => trivial

theorem AnswersWith.stop (reason : Stop) :
    AnswersWith (CProgram.liftExec (.error reason) : Prog σ α) good :=
  fun _ _ => trivial

theorem AnswersWith.bind {program : Prog σ α} {rest : α → Prog σ β}
    {after : β → Prop} (first : AnswersWith program good)
    (second : ∀ answer, good answer → AnswersWith (rest answer) after) :
    AnswersWith (program >>= rest) after := by
  apply Contract.bind first
  intro answer state holds
  exact second answer holds state trivial

end AnswersWith

/-! ## Invariants -/

section Preserves

variable {σ α β : Type} {invariant stopped : σ → Prop}

/-- Every run that starts in the invariant ends in it or stops in
`stopped`. -/
def Preserves (invariant stopped : σ → Prop) (program : Prog σ α) : Prop :=
  Contract invariant program (fun _ => invariant) stopped

/-- What a run leaves behind, and the rest keeps, holds at the end. -/
theorem bind_ends {program : Prog σ α} {rest : α → Prog σ β} {state : σ}
    (first : invariant (program.from state).2)
    (second : ∀ value after, invariant after →
      invariant ((rest value).from after).2) :
    invariant ((program >>= rest).from state).2 := by
  rw [bind_from]
  cases outcome : program.from state with
  | mk answer after =>
      rw [outcome] at first
      cases answer with
      | ok value => exact second value after first
      | error stop => exact first

theorem Preserves.of_ends {program : Prog σ α}
    (ends : ∀ state, invariant state →
      invariant (program.from state).2) :
    Preserves invariant invariant program := by
  intro state holds
  have reached := ends state holds
  cases outcome : program.from state with
  | mk answer final =>
      rw [outcome] at reached
      cases answer with
      | ok value => exact reached
      | error stop => exact reached

theorem Preserves.pure (value : α) :
    Preserves invariant stopped (Pure.pure value : Prog σ α) :=
  Contract.pure fun _ holds => holds

theorem Preserves.liftExec (stops : ∀ state, invariant state → stopped state)
    (run : Exec α) : Preserves invariant stopped (liftExec run) :=
  Contract.liftExec (fun _ _ _ holds => holds) stops

theorem Preserves.bind {program : Prog σ α} {rest : α → Prog σ β}
    (first : Preserves invariant stopped program)
    (second : ∀ value, Preserves invariant stopped (rest value)) :
    Preserves invariant stopped (program >>= rest) :=
  Contract.bind first second

end Preserves

/-! ## Loops over a list of states -/

section ForEach

variable {σ : Type}

/-- Run a program on one state after another, from a given index on.  A run
that stops ends the loop. -/
def forEachFrom (program : Nat → Prog σ Unit) :
    Nat → List σ → Exec Unit × List σ
  | _, [] => (.ok (), [])
  | index, state :: rest =>
      match (program index).from state with
      | (.ok _, final) =>
          let others := forEachFrom program (index + 1) rest
          (others.1, final :: others.2)
      | (.error stop, final) => (.error stop, final :: rest)

def forEach (program : Nat → Prog σ Unit) : Prog (List σ) Unit :=
  forEachFrom program 0

/-- What holds of a state that the loop has not reached, and of each state
that it has dealt with, holds of all of them at the end. -/
theorem forEachFrom_ends {program : Nat → Prog σ Unit}
    {before after : σ → Prop}
    (waiting : ∀ state, before state → after state)
    (runs : ∀ index state, before state →
      after ((program index).from state).2)
    (index : Nat) {states : List σ}
    (start : ∀ state ∈ states, before state) :
    ∀ final ∈ (forEachFrom program index states).2, after final := by
  induction states generalizing index with
  | nil =>
      intro final member
      cases member
  | cons state rest inductionHypothesis =>
      have first := runs index state (start state List.mem_cons_self)
      have others : ∀ state ∈ rest, before state :=
        fun other member => start other (List.mem_cons_of_mem state member)
      intro final member
      rw [forEachFrom] at member
      cases outcome : (program index).from state with
      | mk answer reached =>
          rw [outcome] at first member
          cases answer with
          | ok _ =>
              rcases List.mem_cons.mp member with rfl | later
              · exact first
              · exact inductionHypothesis (index + 1) others final later
          | error stop =>
              rcases List.mem_cons.mp member with rfl | later
              · exact first
              · exact waiting final (others final later)

theorem forEach_ends {program : Nat → Prog σ Unit} {before after : σ → Prop}
    (waiting : ∀ state, before state → after state)
    (runs : ∀ index state, before state →
      after ((program index).from state).2)
    {states : List σ} (start : ∀ state ∈ states, before state) :
    ∀ final ∈ ((forEach program).from states).2, after final :=
  forEachFrom_ends waiting runs 0 start

end ForEach

/-! ## The same call on every state of a list -/

section RunEach

variable {σ α : Type}

/-- Run a program on one state after another and collect the answers.  A run
that stops ends the loop. -/
def runEach (program : Prog σ α) : Prog (List σ) (List α)
  | [] => (.ok [], [])
  | state :: rest =>
      match program.from state with
      | (.ok value, final) =>
          let others := runEach program rest
          (others.1.map (value :: ·), final :: others.2)
      | (.error stop, final) => (.error stop, final :: rest)

theorem runEach_cons (program : Prog σ α) (state : σ) (rest : List σ) :
    (runEach program).from (state :: rest) =
      match program.from state with
      | (.ok value, final) =>
          let others := (runEach program).from rest
          (others.1.map (value :: ·), final :: others.2)
      | (.error stop, final) => (.error stop, final :: rest) :=
  rfl

/-- What the program makes of each state, and what is left of a state that
the loop does not reach. -/
theorem runEach_ends {program : Prog σ α} {before after : σ → Prop}
    (waiting : ∀ state, before state → after state)
    (runs : ∀ state, before state → after (program.from state).2)
    {states : List σ} (start : ∀ state ∈ states, before state) :
    ∀ final ∈ ((runEach program).from states).2, after final := by
  induction states with
  | nil =>
      intro final member
      cases member
  | cons state rest inductionHypothesis =>
      have first := runs state (start state List.mem_cons_self)
      have others : ∀ state ∈ rest, before state :=
        fun other member => start other (List.mem_cons_of_mem state member)
      intro final member
      rw [runEach_cons] at member
      cases outcome : program.from state with
      | mk answer reached =>
          rw [outcome] at first member
          cases answer with
          | ok _ =>
              rcases List.mem_cons.mp member with rfl | later
              · exact first
              · exact inductionHypothesis others final later
          | error stop =>
              rcases List.mem_cons.mp member with rfl | later
              · exact first
              · exact waiting final (others final later)

/-- What is said of each state beside a companion of its own. -/
theorem runEach_along {Companion : Type} {holds : Companion → σ → Prop}
    {program : Prog σ α}
    (runs : ∀ companion state, holds companion state →
      holds companion (program.from state).2)
    {companions : List Companion} {states : List σ}
    (start : List.Forall₂ holds companions states) :
    List.Forall₂ holds companions ((runEach program).from states).2 := by
  induction start with
  | nil => exact .nil
  | cons first rest inductionHypothesis =>
      have reached := runs _ _ first
      rw [runEach_cons]
      revert reached
      generalize program.from _ = run
      intro reached
      rcases run with ⟨answer, final⟩
      cases answer with
      | ok value => exact .cons reached inductionHypothesis
      | error stop => exact .cons reached rest

end RunEach

end CProgram
