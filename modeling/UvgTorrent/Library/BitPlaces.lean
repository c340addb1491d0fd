import Mathlib.Data.Finset.Card
import Mathlib.Data.Finset.Range

/-!
# The places of the bits that are set

A pattern of bits is described by the finite set of the places where its bits
are set.  Setting one bit more inserts a place.
-/

namespace BitPlaces

variable {width place : Nat} {pattern : BitVec width}

/-- The places of the bits that are set. -/
def bitsSet (pattern : BitVec width) : Finset Nat :=
  (Finset.range width).filter fun place => pattern.getLsbD place

theorem mem_bitsSet :
    place ∈ bitsSet pattern ↔ pattern.getLsbD place = true := by
  rw [bitsSet, Finset.mem_filter, Finset.mem_range]
  constructor
  · intro member
    exact member.2
  · intro isSet
    exact ⟨BitVec.lt_of_getLsbD isSet, isSet⟩

theorem bitsSet_zero : bitsSet (0 : BitVec width) = ∅ := by
  apply Finset.eq_empty_of_forall_notMem
  intro place member
  exact Bool.false_ne_true
    (BitVec.getLsbD_zero.symm.trans (mem_bitsSet.mp member))

theorem bitsSet_or_twoPow (inside : place < width) :
    bitsSet (pattern ||| BitVec.twoPow width place) =
      insert place (bitsSet pattern) := by
  ext other
  rw [Finset.mem_insert, mem_bitsSet, mem_bitsSet, BitVec.getLsbD_or,
    BitVec.getLsbD_twoPow, Bool.or_eq_true, Bool.and_eq_true,
    decide_eq_true_iff, decide_eq_true_iff]
  constructor
  · rintro (held | ⟨_, same⟩)
    · exact .inr held
    · exact .inl same.symm
  · rintro (same | held)
    · exact .inr ⟨inside, same.symm⟩
    · exact .inl held

end BitPlaces
