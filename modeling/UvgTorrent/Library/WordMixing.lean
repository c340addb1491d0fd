import Mathlib.Data.Int.GCD
import Mathlib.Data.Nat.ModEq
import Mathlib.Data.Nat.Prime.Basic

/-!
# Mixing words

The operations that hashes are made of lose nothing: a word can be had back
from its sum with itself shifted to the left, and from its exclusive or with
itself shifted to the right.  A hash that takes one symbol at a time in this
way cannot confuse texts that differ in one place.
-/

namespace WordMixing

section Words

variable {width shift : Nat}

theorem eq_zero_of_ushiftRight {word : BitVec width} (positive : 0 < shift)
    (same : word >>> shift = word) : word = 0 := by
  have number := congrArg BitVec.toNat same
  rw [BitVec.toNat_ushiftRight, Nat.shiftRight_eq_div_pow] at number
  apply BitVec.eq_of_toNat_eq
  rw [BitVec.ofNat_eq_ofNat, BitVec.toNat_ofNat, Nat.zero_mod]
  by_contra nonzero
  have smaller := Nat.div_lt_self (Nat.pos_of_ne_zero nonzero)
    (Nat.one_lt_two_pow (Nat.ne_of_gt positive))
  omega

theorem xor_exchange {first second third fourth : BitVec width}
    (same : first ^^^ second = third ^^^ fourth) :
    second ^^^ fourth = first ^^^ third := by
  apply (BitVec.xor_right_inj first).mp
  calc
    first ^^^ (second ^^^ fourth)
        = third ^^^ fourth ^^^ fourth := by
          rw [← BitVec.xor_assoc, same]
    _ = third := by
          rw [BitVec.xor_assoc, BitVec.xor_self, BitVec.xor_zero]
    _ = first ^^^ (first ^^^ third) := by
          rw [← BitVec.xor_assoc, BitVec.xor_self, BitVec.zero_xor]

/-- What two words with the same mixture differ in is its own shift. -/
theorem xorShiftRight_injective (positive : 0 < shift) :
    Function.Injective fun word : BitVec width =>
      word ^^^ (word >>> shift) := by
  intro first second same
  have difference : (first ^^^ second) >>> shift = first ^^^ second := by
    rw [BitVec.ushiftRight_xor_distrib]
    exact xor_exchange same
  exact BitVec.xor_eq_zero_iff.mp
    (eq_zero_of_ushiftRight positive difference)

theorem toNat_addShiftLeft (shift : Nat) (word : BitVec width) :
    (word + word <<< shift).toNat ≡ word.toNat * (1 + 2 ^ shift)
      [MOD 2 ^ width] := by
  rw [BitVec.toNat_add, BitVec.toNat_shiftLeft, Nat.shiftLeft_eq,
    Nat.mul_add, Nat.mul_one]
  exact (Nat.mod_modEq _ _).trans ((Nat.ModEq.refl _).add (Nat.mod_modEq _ _))

/-- The sum multiplies by an odd number. -/
theorem addShiftLeft_injective (positive : 0 < shift) :
    Function.Injective fun word : BitVec width => word + word <<< shift := by
  intro first second same
  have odd : Nat.Coprime (2 ^ width) (1 + 2 ^ shift) := by
    apply Nat.Coprime.pow_left
    rw [Nat.coprime_two_left]
    exact odd_one.add_even ((even_two).pow_of_ne_zero positive.ne')
  have products := (toNat_addShiftLeft shift first).symm.trans
    ((congrArg BitVec.toNat same) ▸ toNat_addShiftLeft shift second)
  exact BitVec.eq_of_toNat_eq
    ((Nat.ModEq.cancel_right_of_coprime odd products).eq_of_lt_of_lt
      first.isLt second.isLt)

end Words

/-! ## Symbol by symbol -/

section Absorbing

variable {State Symbol : Type} {absorb : State → Symbol → State}

/-- Neither the state nor the symbol is lost in a round. -/
structure Lossless (absorb : State → Symbol → State) : Prop where
  state : ∀ symbol, Function.Injective fun state => absorb state symbol
  symbol : ∀ state, Function.Injective (absorb state)

theorem Lossless.foldl_injective (lossless : Lossless absorb)
    (text : List Symbol) :
    Function.Injective fun state => text.foldl absorb state := by
  induction text with
  | nil =>
      exact fun _ _ same => same
  | cons symbol rest inductionHypothesis =>
      intro first second same
      exact lossless.state symbol (inductionHypothesis same)

/-- What is appended neither makes nor removes a collision. -/
theorem Lossless.append_iff (lossless : Lossless absorb) (start : State)
    (first second rest : List Symbol) :
    (first ++ rest).foldl absorb start = (second ++ rest).foldl absorb start ↔
      first.foldl absorb start = second.foldl absorb start := by
  rw [List.foldl_append, List.foldl_append]
  exact (lossless.foldl_injective rest).eq_iff

theorem Lossless.changed_iff (lossless : Lossless absorb) (start : State)
    (front rest : List Symbol) (first second : Symbol) :
    (front ++ first :: rest).foldl absorb start =
        (front ++ second :: rest).foldl absorb start ↔
      first = second := by
  rw [List.foldl_append, List.foldl_append, List.foldl_cons, List.foldl_cons,
    (lossless.foldl_injective rest).eq_iff]
  exact (lossless.symbol _).eq_iff

end Absorbing

end WordMixing
