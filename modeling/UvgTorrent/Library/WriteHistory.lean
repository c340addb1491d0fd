import Mathlib.Algebra.Order.Ring.Int

/-!
# Finite maps as histories of writes

The abstract meaning of a key-value store: what a key holds is the value of
the last write to it.  A store that keeps the writes of one class of keys
together loses nothing, because the last write of a key is found within its
class.
-/

namespace WriteHistory

universe u v

variable {Key : Type u} {Value : Type v} [DecidableEq Key]

/-- The value of the last write to `key`. -/
def lastWrite (history : List (Key × Value)) (key : Key) : Option Value :=
  ((history.filter (fun entry => entry.1 = key)).getLast?).map Prod.snd

@[simp]
theorem lastWrite_nil (key : Key) :
    lastWrite ([] : List (Key × Value)) key = none :=
  rfl

theorem lastWrite_eq_none_iff
    (history : List (Key × Value)) (key : Key) :
    lastWrite history key = none ↔ ∀ entry ∈ history, entry.1 ≠ key := by
  simp [lastWrite]

/-- The last write of a key is found among the writes of its class. -/
theorem lastWrite_filter_class
    {Class : Type*} [DecidableEq Class] (classOf : Key → Class)
    (history : List (Key × Value)) (key : Key) :
    lastWrite
        (history.filter (fun entry => classOf entry.1 = classOf key)) key =
      lastWrite history key := by
  unfold lastWrite
  rw [List.filter_filter]
  congr 2
  apply List.filter_congr
  intro entry _
  by_cases same : entry.1 = key
  · simp [same]
  · simp [same]

end WriteHistory
