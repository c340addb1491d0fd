import Mathlib.Algebra.Order.Ring.Int

/-!
# Queues

What a queue is for: values leave it in the order in which they came.
-/

namespace Fifo

variable {Value : Type}

inductive Call (Value : Type) where
  | append (value : Value)
  | pop
  deriving DecidableEq, Repr

/-- The queue behind a call. -/
def after (queue : List Value) : Call Value → List Value
  | .append value => queue ++ [value]
  | .pop => queue.tail

/-- The values appended and not yet popped, in the order of their calls. -/
def pending (queue : List Value) (calls : List (Call Value)) :
    List Value :=
  calls.foldl after queue

/-- Fewer than `bound` values wait at any time. -/
def Within (bound : Nat) : List Value → List (Call Value) → Prop
  | queue, [] => queue.length < bound
  | queue, call :: rest =>
      queue.length < bound ∧ Within bound (after queue call) rest

@[simp]
theorem pending_cons (queue : List Value) (call : Call Value)
    (calls : List (Call Value)) :
    pending queue (call :: calls) = pending (after queue call) calls :=
  rfl

theorem Within.now {bound : Nat} {queue : List Value}
    {calls : List (Call Value)} (within : Within bound queue calls) :
    queue.length < bound := by
  cases calls with
  | nil =>
      exact within
  | cons call rest =>
      exact within.1

theorem Within.final {bound : Nat} {queue : List Value}
    {calls : List (Call Value)} (within : Within bound queue calls) :
    (pending queue calls).length < bound := by
  induction calls generalizing queue with
  | nil =>
      exact within
  | cons call rest inductionHypothesis =>
      exact inductionHypothesis within.2

end Fifo
