import Mathlib.Data.List.Chain
import UvgTorrent.Library.CString

/-!
# Where a search ends

`strstr` ends at the first occurrence of the needle, if no terminator stands
before it, and otherwise at the terminator.
-/

namespace CText

open CProgram

/-- The needle first occurs at an offset, and no terminator stands before
it. -/
structure FirstAt (needle block : List UInt8) (position : Nat) : Prop where
  here : needle <+: block.drop position
  noNul : 0 ∉ block.take position
  first : ∀ earlier < position, ¬ needle <+: block.drop earlier

/-- The block holds a terminator, and the string before it no needle. -/
structure Missing (needle block : List UInt8) : Prop where
  terminated : 0 ∈ block
  absent : ¬ needle <:+: (CString.ofBytes block).bytes

section Search

variable {needle block rest : List UInt8} {byte : UInt8} {position : Nat}

theorem FirstAt.unique {other : Nat} (found : FirstAt needle block position)
    (alike : FirstAt needle block other) : position = other := by
  rcases Nat.lt_trichotomy position other with before | same | behind
  · exact absurd found.here (alike.first position before)
  · exact same
  · exact absurd alike.here (found.first other behind)

theorem FirstAt.length_le (found : FirstAt needle block position)
    (nonempty : needle ≠ []) : position + needle.length ≤ block.length := by
  have inside := found.here.length_le
  have positive := List.length_pos_iff.mpr nonempty
  rw [List.length_drop] at inside
  omega

theorem firstAt_zero (here : needle <+: block) : FirstAt needle block 0 where
  here := here
  noNul := by simp
  first := fun _ before => absurd before (Nat.not_lt_zero _)

/-- An occurrence behind a byte that begins none. -/
theorem firstAt_succ_iff (notHere : ¬ needle <+: byte :: rest)
    (notNul : byte ≠ 0) :
    FirstAt needle (byte :: rest) (position + 1) ↔
      FirstAt needle rest position := by
  constructor
  · intro found
    refine ⟨found.here, fun member => ?_, fun earlier before => ?_⟩
    · exact found.noNul (List.mem_cons_of_mem byte member)
    · exact found.first (earlier + 1) (Nat.succ_lt_succ before)
  · intro found
    refine ⟨found.here, fun member => ?_, fun earlier before => ?_⟩
    · rcases List.mem_cons.mp member with isNul | further
      · exact notNul isNul.symm
      · exact found.noNul further
    · cases earlier with
      | zero => exact notHere
      | succ earlier =>
          exact found.first earlier (Nat.lt_of_succ_lt_succ before)

theorem strstr_eq_some_iff (nonempty : needle ≠ []) :
    strstr needle block = .ok (some position) ↔
      FirstAt needle block position := by
  induction block generalizing position with
  | nil =>
      constructor
      · intro found
        cases found
      · intro found
        have inside := found.here
        rw [List.drop_nil] at inside
        exact absurd (List.prefix_nil.mp inside) nonempty
  | cons byte rest inductionHypothesis =>
      by_cases here : needle <+: byte :: rest
      · rw [strstr_here here]
        constructor
        · intro found
          cases found
          exact firstAt_zero here
        · intro found
          rw [found.unique (firstAt_zero here)]
      · by_cases isNul : byte = 0
        · rw [strstr, if_neg (by simpa using here), if_pos isNul]
          constructor
          · intro found
            cases found
          · intro found
            cases position with
            | zero => exact absurd found.here here
            | succ position =>
                exact absurd (isNul ▸ List.mem_cons_self) found.noNul
        · rw [strstr_cons here isNul]
          cases position with
          | zero =>
              refine ⟨fun found => ?_, fun found => absurd found.here here⟩
              cases inner : strstr needle rest with
              | error stop =>
                  rw [inner] at found
                  cases found
              | ok further =>
                  rw [inner] at found
                  simp [Except.map] at found
          | succ position =>
              rw [firstAt_succ_iff here isNul, ← inductionHypothesis]
              cases strstr needle rest with
              | error stop => simp [Except.map]
              | ok further => simp [Except.map]

theorem terminated_eq (terminated : 0 ∈ block) :
    ∃ rest, block = (CString.ofBytes block).bytes ++ 0 :: rest := by
  obtain ⟨front, rest, split, noNul⟩ := List.eq_append_cons_of_mem terminated
  exact ⟨rest, by rw [split, CString.ofBytes_bytes_append noNul]⟩

theorem strstr_none_terminated (missing : strstr needle block = .ok none) :
    0 ∈ block := by
  induction block with
  | nil => cases missing
  | cons byte rest inductionHypothesis =>
      by_cases here : needle <+: byte :: rest
      · rw [strstr_here here] at missing
        cases missing
      · by_cases isNul : byte = 0
        · exact isNul ▸ List.mem_cons_self
        · rw [strstr_cons here isNul] at missing
          cases inner : strstr needle rest with
          | error stop =>
              rw [inner] at missing
              cases missing
          | ok further =>
              rw [inner] at missing
              cases further with
              | some place => cases missing
              | none =>
                  exact List.mem_cons_of_mem byte (inductionHypothesis inner)

theorem strstr_eq_none_iff (noNul : 0 ∉ needle) (nonempty : needle ≠ []) :
    strstr needle block = .ok none ↔ Missing needle block := by
  constructor
  · intro missing
    have terminated := strstr_none_terminated missing
    obtain ⟨rest, split⟩ := terminated_eq terminated
    rcases strstr_answers noNul nonempty (CString.ofBytes block).noNul rest
      with ⟨_, _, _, found⟩ | ⟨absent, _⟩
    · rw [← split, missing] at found
      cases found
    · exact ⟨terminated, absent⟩
  · intro missing
    obtain ⟨rest, split⟩ := terminated_eq missing.terminated
    rcases strstr_answers noNul nonempty (CString.ofBytes block).noNul rest
      with ⟨before, after, inside, _⟩ | ⟨_, found⟩
    · exact absurd ⟨before, after, inside.symm⟩ missing.absent
    · rwa [← split] at found

end Search

/-! ## A needle of two equal bytes -/

/-- No byte of a block and its neighbour are both this one. -/
def Apart (byte : UInt8) (block : List UInt8) : Prop :=
  block.IsChain fun left right => ¬ (left = byte ∧ right = byte)

instance (byte : UInt8) (block : List UInt8) : Decidable (Apart byte block) :=
  inferInstanceAs (Decidable (List.IsChain _ _))

section Apart

variable {byte : UInt8} {front block rest : List UInt8}

theorem apart_of_notMem (free : byte ∉ block) : Apart byte block := by
  induction block with
  | nil => exact .nil
  | cons first rest inductionHypothesis =>
      rw [List.mem_cons, not_or] at free
      exact (inductionHypothesis free.2).cons
        fun _ _ both => free.1 both.1.symm

theorem Apart.append (apart : Apart byte front) (also : Apart byte block)
    (ends : ∀ last ∈ front.getLast?, last ≠ byte) :
    Apart byte (front ++ block) :=
  List.IsChain.append apart also
    fun last isLast _ _ both => ends last isLast both.1

/-- The first pair of a byte stands behind a block that holds none. -/
theorem firstAt_pair (apart : Apart byte (front ++ [byte]))
    (noNul : 0 ∉ front) (rest : List UInt8) :
    FirstAt [byte, byte] (front ++ byte :: byte :: rest) front.length := by
  induction front with
  | nil =>
      exact firstAt_zero ⟨rest, rfl⟩
  | cons first front inductionHypothesis =>
      rw [List.mem_cons, not_or] at noNul
      rw [List.cons_append, Apart, List.isChain_cons] at apart
      have later := inductionHypothesis apart.2 noNul.2
      have notHere : ¬ [byte, byte] <+:
          first :: (front ++ byte :: byte :: rest) := by
        intro here
        rw [List.cons_prefix_cons] at here
        cases front with
        | nil =>
            exact apart.1 byte rfl ⟨here.1.symm, rfl⟩
        | cons second front =>
            rw [List.cons_append, List.cons_prefix_cons] at here
            exact apart.1 second rfl ⟨here.1.symm, here.2.1.symm⟩
      exact (firstAt_succ_iff notHere (Ne.symm noNul.1)).mpr later

end Apart
end CText
