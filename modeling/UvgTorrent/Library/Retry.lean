import Mathlib.Data.Nat.Find
import Mathlib.Data.Stream.Init
import Mathlib.Tactic.ByContra
import Mathlib.Tactic.Push

/-!
# Trying again

Trials are made one after another until one of them is heard, and not more of
them than a budget allows.
-/

namespace Retry

variable {Trial : Type} {silent good : Trial → Prop}
  {trials : Stream' Trial} {budget index : Nat}

/-- The first trial that is heard. -/
structure Settles (silent : Trial → Prop) (trials : Stream' Trial)
    (budget index : Nat) : Prop where
  within : index < budget
  before : ∀ earlier < index, silent (trials.get earlier)
  heard : ¬ silent (trials.get index)

/-- The first trial that is heard is a good one. -/
def SettlesWith (silent good : Trial → Prop) (trials : Stream' Trial)
    (budget : Nat) : Prop :=
  ∃ index, Settles silent trials budget index ∧ good (trials.get index)

theorem settles_succ_iff :
    Settles silent trials (budget + 1) (index + 1) ↔
      silent trials.head ∧ Settles silent trials.tail budget index := by
  constructor
  · intro settles
    refine ⟨settles.before 0 (Nat.succ_pos index),
      Nat.lt_of_succ_lt_succ settles.within, ?_, settles.heard⟩
    intro earlier before
    exact settles.before (earlier + 1) (Nat.succ_lt_succ before)
  · intro settled
    rcases settled with ⟨quiet, settles⟩
    refine ⟨Nat.succ_lt_succ settles.within, ?_, settles.heard⟩
    intro earlier before
    cases earlier with
    | zero => exact quiet
    | succ earlier =>
        exact settles.before earlier (Nat.lt_of_succ_lt_succ before)

theorem not_settlesWith_zero : ¬ SettlesWith silent good trials 0 := by
  intro settled
  rcases settled with ⟨index, settles, _⟩
  exact Nat.not_lt_zero index settles.within

/-- The first trial is heard. -/
theorem settlesWith_heard (heard : ¬ silent trials.head) :
    SettlesWith silent good trials (budget + 1) ↔ good trials.head := by
  constructor
  · intro settled
    rcases settled with ⟨index, settles, isGood⟩
    cases index with
    | zero => exact isGood
    | succ index => exact absurd (settles_succ_iff.mp settles).1 heard
  · intro isGood
    exact ⟨0, ⟨Nat.succ_pos budget, nofun, heard⟩, isGood⟩

/-- The first trial is silent, and the others decide. -/
theorem settlesWith_silent (quiet : silent trials.head) :
    SettlesWith silent good trials (budget + 1) ↔
      SettlesWith silent good trials.tail budget := by
  constructor
  · intro settled
    rcases settled with ⟨index, settles, isGood⟩
    cases index with
    | zero => exact absurd quiet settles.heard
    | succ index => exact ⟨index, (settles_succ_iff.mp settles).2, isGood⟩
  · intro settled
    rcases settled with ⟨index, settles, isGood⟩
    exact ⟨index + 1, settles_succ_iff.mpr ⟨quiet, settles⟩, isGood⟩

end Retry
