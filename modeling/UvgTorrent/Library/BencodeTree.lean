import UvgTorrent.Library.Bencode

/-!
# Bencode trees

Values whose keys are any bytes, with their encoding.  Nothing is asked of
the order of the keys, so that every well-formed text is the encoding of a
tree, and some other texts are too.
-/

namespace BencodeFormat

open CText

inductive Tree where
  | integer (value : Int)
  | text (bytes : List UInt8)
  | list (items : List Tree)
  | dict (entries : List (List UInt8 × Tree))

abbrev TreeEntry := List UInt8 × Tree

mutual

def Tree.bytes : Tree → List UInt8
  | .integer value => encodeInteger value
  | .text bytes => encodeText bytes
  | .list items => ch 'l' :: itemBytes items ++ [ch 'e']
  | .dict entries => ch 'd' :: entryBytes entries ++ [ch 'e']

def itemBytes : List Tree → List UInt8
  | [] => []
  | item :: rest => item.bytes ++ itemBytes rest

def entryBytes : List (List UInt8 × Tree) → List UInt8
  | [] => []
  | (key, value) :: rest =>
      encodeText key ++ value.bytes ++ entryBytes rest

end

/-- Induction with one hypothesis for every item of a list and for every
value of a dictionary. -/
theorem Tree.induct {motive : Tree → Prop}
    (integer : ∀ value, motive (.integer value))
    (text : ∀ bytes, motive (.text bytes))
    (list : ∀ items, (∀ item ∈ items, motive item) →
      motive (.list items))
    (dict : ∀ entries : List TreeEntry,
      (∀ entry ∈ entries, motive entry.2) → motive (.dict entries))
    (tree : Tree) : motive tree := by
  match tree with
  | .integer value => exact integer value
  | .text bytes => exact text bytes
  | .list items =>
      apply list
      intro item member
      exact Tree.induct integer text list dict item
  | .dict entries =>
      apply dict
      intro entry member
      exact Tree.induct integer text list dict entry.2
termination_by sizeOf tree
decreasing_by
  · have smaller := List.sizeOf_lt_of_mem member
    simp only [Tree.list.sizeOf_spec]
    omega
  · have smaller := List.sizeOf_lt_of_mem member
    have part : sizeOf entry.2 < sizeOf entry := by
      cases entry
      simp only [Prod.mk.sizeOf_spec]
      omega
    simp only [Tree.dict.sizeOf_spec]
    omega

/-! ## The bytes of a tree -/

theorem encodeText_length (bytes : List UInt8) :
    bytes.length + 2 ≤ (encodeText bytes).length := by
  have digits := List.length_pos_iff.mpr (decimal_nonempty bytes.length)
  rw [encodeText, List.length_append, List.length_cons]
  omega

theorem encodeInteger_length (value : Int) :
    3 ≤ (encodeInteger value).length := by
  cases value with
  | ofNat magnitude =>
      have digits := List.length_pos_iff.mpr (decimal_nonempty magnitude)
      simp only [encodeInteger, List.length_append, List.length_cons,
        List.length_nil]
      omega
  | negSucc magnitude =>
      have digits :=
        List.length_pos_iff.mpr (decimal_nonempty (magnitude + 1))
      simp only [encodeInteger, List.length_append, List.length_cons,
        List.length_nil]
      omega

theorem Tree.bytes_length (tree : Tree) : 2 ≤ tree.bytes.length := by
  cases tree with
  | integer value =>
      have size := encodeInteger_length value
      rw [Tree.bytes]
      omega
  | text bytes =>
      have size := encodeText_length bytes
      rw [Tree.bytes]
      omega
  | list items =>
      simp [Tree.bytes]
  | dict entries =>
      simp [Tree.bytes]

end BencodeFormat
