import Mathlib.Data.Stream.Init
import UvgTorrent.Library.Program

/-!
# Allocations that may fail

A state carries a decision for every allocation to come.  What a program
takes of them, whatever the later ones are, is its pattern of failures.
-/

namespace Allocation

open CProgram

/-- The decisions that a state carries. -/
structure Allocator (σ : Type) where
  decisions : σ → Stream' Bool
  granting : σ → Stream' Bool → σ
  decisions_granting : ∀ state pattern,
    decisions (granting state pattern) = pattern
  granting_decisions : ∀ state, granting state (decisions state) = state

/-- A state that is nothing but its decisions. -/
def bare : Allocator (Stream' Bool) where
  decisions := id
  granting := fun _ pattern => pattern
  decisions_granting := fun _ _ => rfl
  granting_decisions := fun _ => rfl

/-- The outcomes of `count` allocations, up to the first one refused. -/
def attempts : Nat → Stream' Bool → List Bool
  | 0, _ => []
  | count + 1, pattern =>
      if pattern.head then true :: attempts count pattern.tail else [false]

/-- What an update does that is refused a block or stores its value. -/
structure CleanUpdate (outcomes : List Bool) (code : ExitCode)
    (unchanged stored : Prop) : Prop where
  reported : false ∈ outcomes → code = .failure ∧ unchanged
  complete : code = .success → stored

section Attempts

variable {count : Nat} {pattern : Stream' Bool}

theorem attempts_granted (granted : pattern.head = true) :
    attempts (count + 1) pattern = true :: attempts count pattern.tail :=
  if_pos granted

theorem attempts_refused (refused : pattern.head = false) :
    attempts (count + 1) pattern = [false] := by
  rw [attempts, refused]
  rfl

theorem attempts_one (pattern : Stream' Bool) :
    attempts 1 pattern = [pattern.head] := by
  cases first : pattern.head with
  | true =>
      exact attempts_granted first
  | false =>
      exact attempts_refused first

/-- The outcomes decide what is asked for. -/
theorem attempts_append (count : Nat) (pattern rest : Stream' Bool) :
    attempts count (attempts count pattern ++ₛ rest) =
      attempts count pattern := by
  induction count generalizing pattern with
  | zero =>
      rfl
  | succ count inductionHypothesis =>
      cases first : pattern.head with
      | true =>
          rw [attempts_granted first, Stream'.cons_append_stream,
            attempts_granted rfl, Stream'.tail_cons, inductionHypothesis]
      | false =>
          rw [attempts_refused first]
          rfl

theorem attempts_all_granted {pattern : Stream' Bool}
    (granted : ∀ index, pattern.get index = true) :
    false ∉ attempts count pattern := by
  induction count generalizing pattern with
  | zero =>
      exact List.not_mem_nil
  | succ count inductionHypothesis =>
      rw [attempts_granted (granted 0), List.mem_cons, not_or]
      exact ⟨Bool.false_ne_true,
        inductionHypothesis fun index => granted (index + 1)⟩

end Attempts

section Programs

variable {σ α β : Type} {allocator : Allocator σ} {before after : σ}
  {program : Prog σ α} {outcomes others : List Bool}

/-- From `before` the program takes the decisions `outcomes` and no more. -/
def Uses (allocator : Allocator σ) (before : σ) (program : Prog σ α)
    (outcomes : List Bool) : Prop :=
  ∀ rest, allocator.decisions
    (program.from (allocator.granting before (outcomes ++ₛ rest))).2 = rest

/-- The program answers, and `outcomes` are the decisions that it takes. -/
structure Performs (allocator : Allocator σ) (before : σ)
    (program : Prog σ α) (outcomes : List Bool) (answer : α) (after : σ) :
    Prop where
  uses : Uses allocator before program outcomes
  begins : allocator.decisions before =
    outcomes ++ₛ allocator.decisions after
  ran : program.from before = (.ok answer, after)

/-- The program asks for `count` blocks, until one is refused. -/
def AsksFor (allocator : Allocator σ) (count : Nat) (before : σ)
    (program : Prog σ α) : Prop :=
  allocator.decisions (program.from before).2 =
    (allocator.decisions before).drop
      (attempts count (allocator.decisions before)).length

theorem append_eq_self {outcomes : List Bool}
    (same : ∀ rest : Stream' Bool, outcomes ++ₛ rest = rest) :
    outcomes = [] := by
  cases outcomes with
  | nil =>
      rfl
  | cons outcome outcomes =>
      have first : outcome = !outcome :=
        congrArg Stream'.head (same (Stream'.const (!outcome)))
      cases outcome <;> cases first

/-- Of two fronts of one stream, one is a front of the other. -/
theorem fronts_comparable {pattern further : Stream' Bool}
    (same : outcomes ++ₛ pattern = others ++ₛ further) :
    ∃ extra, others = outcomes ++ extra ∨ outcomes = others ++ extra := by
  induction outcomes generalizing others with
  | nil =>
      exact ⟨others, .inl rfl⟩
  | cons outcome outcomes inductionHypothesis =>
      cases others with
      | nil =>
          exact ⟨outcome :: outcomes, .inr rfl⟩
      | cons other others =>
          have heads : outcome = other := congrArg Stream'.head same
          have tails : outcomes ++ₛ pattern = others ++ₛ further :=
            congrArg Stream'.tail same
          rcases inductionHypothesis tails with ⟨extra, longer | shorter⟩
          · exact ⟨extra, .inl (by rw [heads, longer]; rfl)⟩
          · exact ⟨extra, .inr (by rw [heads, shorter]; rfl)⟩

/-- A program that can do with fewer decisions does not take more. -/
theorem Uses.no_more {extra : List Bool}
    (fewer : Uses allocator before program outcomes)
    (more : Uses allocator before program (outcomes ++ extra)) :
    extra = [] := by
  refine append_eq_self fun rest => ?_
  have taken := more rest
  rw [Stream'.append_append_stream] at taken
  exact (fewer (extra ++ₛ rest)).symm.trans taken

/-- What a program takes is determined by the decisions there are. -/
theorem Uses.unique (first : Uses allocator before program outcomes)
    (second : Uses allocator before program others)
    {pattern further : Stream' Bool}
    (same : outcomes ++ₛ pattern = others ++ₛ further) :
    outcomes = others := by
  rcases fronts_comparable same with ⟨extra, rfl | rfl⟩
  · rw [first.no_more second, List.append_nil]
  · rw [second.no_more first, List.append_nil]

/-- A program that asks for blocks until one is refused takes just these
decisions. -/
theorem uses_attempts {count : Nat}
    (asks : ∀ pattern,
      AsksFor allocator count (allocator.granting before pattern) program)
    (pattern : Stream' Bool) :
    Uses allocator before program (attempts count pattern) := by
  intro rest
  have taken := asks (attempts count pattern ++ₛ rest)
  rw [AsksFor, allocator.decisions_granting, attempts_append,
    Stream'.drop_append_stream] at taken
  exact taken

theorem attempts_front (count : Nat) (pattern : Stream' Bool) :
    attempts count pattern ++ₛ
      pattern.drop (attempts count pattern).length = pattern := by
  induction count generalizing pattern with
  | zero =>
      rfl
  | succ count inductionHypothesis =>
      cases first : pattern.head with
      | true =>
          have whole := congrArg (Stream'.cons true)
            (inductionHypothesis pattern.tail)
          rw [attempts_granted first, List.length_cons,
            Stream'.cons_append_stream, Stream'.drop_succ]
          rw [whole, ← first, Stream'.eta]
      | false =>
          rw [attempts_refused first, ← first]
          exact Stream'.append_stream_head_tail pattern

/-- The decisions of a run are its attempts. -/
theorem Performs.outcomes_eq {count : Nat} {answer : α}
    (performs :
      Performs allocator before program outcomes answer after)
    (asks : ∀ pattern,
      AsksFor allocator count (allocator.granting before pattern) program) :
    outcomes = attempts count (allocator.decisions before) := by
  have same : outcomes ++ₛ allocator.decisions after =
      attempts count (allocator.decisions before) ++ₛ
        (allocator.decisions before).drop
          (attempts count (allocator.decisions before)).length := by
    rw [← performs.begins, attempts_front]
  exact performs.uses.unique (uses_attempts asks _) same

/-- A run that answers is such a performance. -/
theorem performs_attempts {count : Nat} {answer : α}
    (asks : ∀ pattern,
      AsksFor allocator count (allocator.granting before pattern) program)
    (ran : program.from before = (.ok answer, after)) :
    Performs allocator before program
      (attempts count (allocator.decisions before)) answer after := by
  have here := asks (allocator.decisions before)
  refine ⟨uses_attempts asks _, ?_, ran⟩
  rw [allocator.granting_decisions, AsksFor, ran] at here
  rw [here, attempts_front]

end Programs

end Allocation
