import UvgTorrent.Bencode.TreeReader
import UvgTorrent.Bencode.Validate

/-!
# Texts that the validator accepts

Every encoding is accepted, whatever stands behind it.  A dictionary is
accepted without its end, too, wherever it is cut between two entries: the
`NUL` behind the buffer ends the walk.
-/

namespace UvgTorrent

open CProgram CText MachineInt BencodeFormat

section Accepting

variable {memory : List UInt8}

theorem tree_reads (terminated : Terminated memory)
    (small : memory.length ≤ 2 ^ 31) {position : Nat} {last : Int}
    {tree : Tree} (window : last - position < 2 ^ 31)
    (stands : TreeAt memory last position tree) :
    Reads memory (.value last position)
      (some (position + tree.bytes.length)) := by
  have size := tree.bytes_length
  have inside := stands.holds.inside (by
    intro empty
    rw [empty] at size
    simp at size)
  exact skipItem_reads terminated small
    (iterate_sound terminated small _) (iterate_stays _) _ (by omega) window
    (tree_skips small tree last position stands _ (Nat.le_refl _) window)

/-- In front of a key or of the end of the block the cursor is where the key
is. -/
theorem keyPosition_of_cut {position : Nat} {entries : List TreeEntry}
    (holds : HoldsAt memory position (entryBytes entries ++ [0])) :
    keyPosition memory position = position := by
  have notOpen : memory[position]? ≠ some (ch 'd') := by
    cases entries with
    | nil =>
        have closes : memory[position]? = some 0 := holds.byte
        rw [closes]
        decide
    | cons entry rest =>
        rw [entryBytes, List.append_assoc, List.append_assoc] at holds
        rcases lead_of_encodeText holds with ⟨lead, held, digit⟩
        rw [held, Ne, Option.some.injEq]
        intro opens
        rw [opens] at digit
        exact absurd digit (by decide)
  exact if_neg notOpen

/-- Entries that stand in front of the end of the block are read, without a
mark of their end. -/
theorem cutEntries_read (terminated : Terminated memory)
    (small : memory.length ≤ 2 ^ 31) {entries : List TreeEntry}
    {start position last : Nat} (range : InRange start last position)
    (holds : HoldsAt memory (keyPosition memory position)
      (entryBytes entries ++ [0]))
    (ends : keyPosition memory position + (entryBytes entries).length =
      last) :
    ∃ next, Reads memory (.entries start last position) (some next) := by
  induction entries generalizing position with
  | nil =>
      have inside := lt_length_of_byte holds.byte
      have before := le_keyPosition memory position
      have close : keyPosition memory position ≤ position + 1 := by
        unfold keyPosition
        split <;> omega
      rw [entryBytes, List.length_nil] at ends
      exact ⟨_, .dictEnd (by omega) (dictEnds_of_le (by omega))⟩
  | cons entry rest inductionHypothesis =>
      rcases entry with ⟨key, value⟩
      have order := range.order
      have window := range.window
      have before := le_keyPosition memory position
      have keySize := encodeText_length key
      have valueSize := value.bytes_length
      have total : (entryBytes ((key, value) :: rest)).length =
          (encodeText key).length + value.bytes.length +
            (entryBytes rest).length := by
        rw [entryBytes, List.length_append, List.length_append]
      rw [entryBytes, List.append_assoc, List.append_assoc] at holds
      have length := holds.front.lengthAt small
      have place := @encodeText_end (keyPosition memory position) key
      have valueHolds := holds.back.front
      have restHolds := holds.back.back
      have inside := valueHolds.inside (by
        intro empty
        rw [empty] at valueSize
        simp at valueSize)
      have restPlace := keyPosition_of_cut restHolds
      rcases lead_of_encodeText holds with ⟨lead, held, digit⟩
      have more : ¬ DictEnds memory last position :=
        not_dictEnds_of_digit held digit (by omega)
      have found : KeyAt memory position
          (keyPosition memory position + (encodeText key).length) :=
        ⟨by omega, _, _, length, place.symm⟩
      have read := @tree_reads _ terminated small _
        (last + (position - start)) _ (by omega)
        ⟨valueHolds, by omega⟩
      rcases inductionHypothesis ⟨by omega, window⟩
          (restPlace.symm ▸ restHolds) (by omega) with ⟨next, behind⟩
      exact ⟨next, .entry more found read behind⟩

end Accepting

/-- The buffer begins with an encoding, or is a dictionary without its
end. -/
def BeginsWell (buf : List UInt8) : Prop :=
  (∃ tree : Tree, tree.bytes <+: buf) ∨
    ∃ entries, buf = ch 'd' :: entryBytes entries

theorem bencodeValidate_accepts {buf : List UInt8}
    (size : buf.length < 2 ^ 31) (begins : BeginsWell buf) :
    Returns (bencodeValidate buf) 0 := by
  have terminated : Terminated (buf ++ [0]) := ⟨buf, rfl⟩
  have small : (buf ++ [0]).length ≤ 2 ^ 31 := by
    rw [List.length_append, List.length_singleton]
    exact size
  rcases begins with ⟨tree, begins⟩ | ⟨entries, rfl⟩
  · have treeSize := tree.bytes_length
    have fits := begins.length_le
    have stands : TreeAt (buf ++ [0]) buf.length 0 tree :=
      ⟨begins.trans (List.prefix_append buf [0]), by omega⟩
    have reads := tree_reads terminated small (by omega) stands
    exact (bencodeValidate_returns_iff (by omega) size 0).mpr
      ⟨_, reads, rfl⟩
  · have opens : (ch 'd' :: entryBytes entries ++ [0])[0]? =
        some (ch 'd') :=
      rfl
    have place := keyPosition_of_lead opens
    have whole : HoldsAt (ch 'd' :: entryBytes entries ++ [0])
        (keyPosition (ch 'd' :: entryBytes entries ++ [0]) 0)
        (entryBytes entries ++ [0]) := by
      rw [place]
      exact List.prefix_rfl
    have range : InRange 0 (ch 'd' :: entryBytes entries).length 0 :=
      ⟨Nat.le_refl 0, by omega⟩
    rcases cutEntries_read terminated small range whole
        (by rw [place, List.length_cons]; omega) with ⟨next, reads⟩
    exact (bencodeValidate_returns_iff (by simp) size 0).mpr
      ⟨_, .dict opens reads, rfl⟩

theorem bencodeValidate_accepts_cut :
    Returns (bencodeValidate (ch 'd' :: entryBytes [(text "a", .integer 1)]))
      0 :=
  bencodeValidate_accepts (by decide) (.inr ⟨_, rfl⟩)

end UvgTorrent
