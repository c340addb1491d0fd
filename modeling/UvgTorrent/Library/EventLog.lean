import Mathlib.Algebra.Order.Ring.Int

/-!
# Logs in order

A log is orderly when each of its events is permitted by the events in
front of it.  A milestone is what a log reaches and then never loses.
-/

namespace EventLog

variable {Event : Type} {permitted : List Event → Event → Prop}
  {log : List Event} {event : Event}

/-- Each event is permitted by what precedes it. -/
def Orderly (permitted : List Event → Event → Prop) (log : List Event) :
    Prop :=
  ∀ before event after, log = before ++ event :: after →
    permitted before event

theorem orderly_nil : Orderly permitted [] := by
  intro before event after split
  cases before <;> cases split

theorem orderly_snoc (orderly : Orderly permitted log)
    (allowed : permitted log event) : Orderly permitted (log ++ [event]) := by
  intro before other after split
  rcases List.eq_nil_or_concat after with rfl | ⟨rest, last, rfl⟩
  · obtain ⟨rfl, same⟩ := List.append_inj' split rfl
    cases same
    exact allowed
  · rw [List.concat_eq_append, ← List.cons_append, ← List.append_assoc]
      at split
    obtain ⟨rfl, _⟩ := List.append_inj' split rfl
    exact orderly before other rest rfl

theorem orderly_front (orderly : Orderly permitted (log ++ [event])) :
    Orderly permitted log := by
  intro before other after split
  exact orderly before other (after ++ [event]) (by rw [split]; simp)

/-- Events that need no permission. -/
theorem orderly_append {events : List Event} (orderly : Orderly permitted log)
    (free : ∀ event ∈ events, ∀ before, permitted before event) :
    Orderly permitted (log ++ events) := by
  induction events generalizing log with
  | nil =>
      rwa [List.append_nil]
  | cons event rest inductionHypothesis =>
      have first := orderly_snoc orderly
        (free event List.mem_cons_self log)
      have others := inductionHypothesis first fun other member =>
        free other (List.mem_cons_of_mem event member)
      rwa [List.append_assoc] at others

/-- What stays true of a log as events are added to it. -/
structure Milestone (Event : Type) where
  Reached : List Event → Prop
  persists : ∀ {log event}, Reached log → Reached (log ++ [event])

namespace Milestone

def happened (event : Event) : Milestone Event where
  Reached := fun log => event ∈ log
  persists := List.mem_append_left _

def and (first second : Milestone Event) : Milestone Event where
  Reached := fun log => first.Reached log ∧ second.Reached log
  persists := fun ⟨one, other⟩ => ⟨first.persists one, second.persists other⟩

/-- An event that was allowed has happened. -/
def occurred (allowed : List Event → Event → Prop) : Milestone Event where
  Reached := fun log => ∃ before event after,
    log = before ++ event :: after ∧ allowed before event
  persists := by
    rintro log last ⟨before, event, after, split, holds⟩
    exact ⟨before, event, after ++ [last], by rw [split]; simp, holds⟩

theorem persists_append (milestone : Milestone Event)
    {events : List Event} (reached : milestone.Reached log) :
    milestone.Reached (log ++ events) := by
  induction events generalizing log with
  | nil =>
      rwa [List.append_nil]
  | cons event rest inductionHypothesis =>
      have first : milestone.Reached (log ++ [event]) :=
        milestone.persists reached
      have others := inductionHypothesis first
      rwa [List.append_assoc] at others

/-- The last event of a log has just occurred. -/
theorem occurred_snoc {allowed : List Event → Event → Prop}
    (holds : allowed log event) :
    (occurred allowed).Reached (log ++ [event]) :=
  ⟨log, event, [], rfl, holds⟩

end Milestone

end EventLog
