import UvgTorrent.DataStructures.Hashmap
import UvgTorrent.Library.WordMixing

/-!
# Which keys have the same hash

Every round of `Hashmap_get_hash` can be undone, and so can the three steps
behind its loop.
-/

namespace UvgTorrent

open CProgram CText WordMixing

/-! ## The steps on words -/

theorem addShiftLeft32_injective {count : UInt32}
    (positive : 0 < count.toNat % 32) :
    Function.Injective fun word : UInt32 => word + (word <<< count) := by
  intro first second same
  apply UInt32.toBitVec_inj.mp
  apply addShiftLeft_injective positive
  have bits := congrArg UInt32.toBitVec same
  simpa using bits

theorem xorShiftRight32_injective {count : UInt32}
    (positive : 0 < count.toNat % 32) :
    Function.Injective fun word : UInt32 => word ^^^ (word >>> count) := by
  intro first second same
  apply UInt32.toBitVec_inj.mp
  apply xorShiftRight_injective positive
  have bits := congrArg UInt32.toBitVec same
  simpa using bits

theorem widenChar_injective : Function.Injective widenChar := by
  intro first second same
  have narrowed : ∀ byte, (widenChar byte).toUInt8 = byte := by
    intro byte
    apply UInt8.toBitVec_inj.mp
    simp only [widenChar, UInt32.toBitVec_toUInt8, Int32.toBitVec_toUInt32,
      Int8.toBitVec_toInt32, UInt8.toBitVec_toInt8]
    apply BitVec.eq_of_getLsbD_eq
    intro place inside
    have low : place < 32 := by omega
    rw [BitVec.getLsbD_setWidth, BitVec.getLsbD_signExtend]
    simp only [inside, low, decide_true, Bool.true_and, if_true]
  rw [← narrowed first, same, narrowed]

/-! ## The loop and what stands behind it -/

theorem hashRound_lossless : Lossless hashRound where
  state := by
    intro byte first second same
    have added := addShiftLeft32_injective (by decide)
      (xorShiftRight32_injective (by decide) same)
    exact (UInt32.add_left_inj _).mp added
  symbol := by
    intro hash first second same
    have added := addShiftLeft32_injective (by decide)
      (xorShiftRight32_injective (by decide) same)
    exact widenChar_injective ((UInt32.add_right_inj _).mp added)

theorem hashValue_eq_iff {first second : List UInt8} :
    hashValue first = hashValue second ↔
      first.foldl hashRound 0 = second.foldl hashRound 0 := by
  constructor
  · intro same
    exact addShiftLeft32_injective (by decide)
      (xorShiftRight32_injective (by decide)
        (addShiftLeft32_injective (by decide) same))
  · intro same
    rw [hashValue, same, hashValue]

theorem hashmapGetHash_eq_iff {first second : List UInt8}
    (short : first.length < 2 ^ 32) (other : second.length < 2 ^ 32) :
    hashmapGetHash first = hashmapGetHash second ↔
      hashValue first = hashValue second := by
  rw [hashmapGetHash, if_pos short, hashmapGetHash, if_pos other,
    Except.ok.injEq]

/-- Two keys that differ in one character never have the same hash. -/
theorem hashmapGetHash_changed_iff {front rest : List UInt8}
    {first second : UInt8}
    (short : front.length + rest.length + 1 < 2 ^ 32) :
    hashmapGetHash (front ++ first :: rest) =
        hashmapGetHash (front ++ second :: rest) ↔
      first = second := by
  have size : ∀ byte, (front ++ byte :: rest).length < 2 ^ 32 := by
    intro byte
    rw [List.length_append, List.length_cons]
    omega
  rw [hashmapGetHash_eq_iff (size first) (size second), hashValue_eq_iff]
  exact hashRound_lossless.changed_iff 0 front rest first second

theorem hashmapGetHash_changed_iff_letter :
    hashmapGetHash (text "pie" ++ ch 'c' :: text "es") =
        hashmapGetHash (text "pie" ++ ch 'r' :: text "es") ↔
      ch 'c' = ch 'r' :=
  hashmapGetHash_changed_iff (by decide)

/-- Keys that collide do so with the same text behind both, and no others
do. -/
theorem hashmapGetHash_append_iff {first second rest : List UInt8}
    (short : first.length + rest.length < 2 ^ 32)
    (other : second.length + rest.length < 2 ^ 32) :
    hashmapGetHash (first ++ rest) = hashmapGetHash (second ++ rest) ↔
      hashmapGetHash first = hashmapGetHash second := by
  rw [hashmapGetHash_eq_iff (by rw [List.length_append]; exact short)
      (by rw [List.length_append]; exact other),
    hashmapGetHash_eq_iff (by omega) (by omega), hashValue_eq_iff,
    hashValue_eq_iff]
  exact hashRound_lossless.append_iff 0 first second rest

theorem hashmapGetHash_append_iff_files :
    hashmapGetHash (text "a" ++ text "files") =
        hashmapGetHash (text "b" ++ text "files") ↔
      hashmapGetHash (text "a") = hashmapGetHash (text "b") :=
  hashmapGetHash_append_iff (by decide) (by decide)

end UvgTorrent
