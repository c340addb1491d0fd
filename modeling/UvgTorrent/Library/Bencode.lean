import UvgTorrent.Library.CString

/-!
# Bencode values and their canonical encoding

The format itself, apart from any reader of it.  A key is a `CString`, so no
key holds a `NUL`.  A canonical dictionary lists its entries by strictly
increasing keys, which makes the keys distinct.
-/

namespace BencodeFormat

open CText

inductive Value where
  | integer (value : Int)
  | text (bytes : List UInt8)
  | list (values : List Value)
  | dict (entries : List (CString × Value))

abbrev Entries := List (CString × Value)

def encodeInteger (value : Int) : List UInt8 :=
  match value with
  | .ofNat magnitude => ch 'i' :: decimal magnitude ++ [ch 'e']
  | .negSucc magnitude =>
      ch 'i' :: ch '-' :: decimal (magnitude + 1) ++ [ch 'e']

def encodeText (bytes : List UInt8) : List UInt8 :=
  decimal bytes.length ++ ch ':' :: bytes

mutual

def encode : Value → List UInt8
  | .integer value => encodeInteger value
  | .text bytes => encodeText bytes
  | .list values => ch 'l' :: encodeValues values ++ [ch 'e']
  | .dict entries => ch 'd' :: encodeEntries entries ++ [ch 'e']

def encodeValues : List Value → List UInt8
  | [] => []
  | value :: rest => encode value ++ encodeValues rest

def encodeEntries : List (CString × Value) → List UInt8
  | [] => []
  | (key, value) :: rest =>
      encodeText key.bytes ++ encode value ++ encodeEntries rest

end

/-- The values the encoding is canonical for. -/
inductive Canonical : Value → Prop
  | integer {value : Int} (lower : -2 ^ 63 ≤ value)
      (upper : value < 2 ^ 63) :
      Canonical (.integer value)
  | text (bytes : List UInt8) : Canonical (.text bytes)
  | list {values : List Value}
      (elements : ∀ value ∈ values, Canonical value) :
      Canonical (.list values)
  | dict {entries : Entries}
      (sorted :
        entries.Pairwise (fun first second =>
          first.1.bytes < second.1.bytes))
      (values : ∀ entry ∈ entries, Canonical entry.2) :
      Canonical (.dict entries)

example : encode (.dict [(⟨text "a", by decide⟩, .integer (-7))]) =
    text "d1:ai-7ee" := by
  decide

/-! ## Well-formed bytes

The same format as a property of bytes, with keys that may hold a `NUL`. -/

/-- A dictionary, from its keys and the bytes of its values. -/
def dictBytes (entries : List (List UInt8 × List UInt8)) : List UInt8 :=
  ch 'd' :: entries.flatMap (fun entry => encodeText entry.1 ++ entry.2) ++
    [ch 'e']

inductive WellFormed : List UInt8 → Prop
  | integer (value : Int) : WellFormed (encodeInteger value)
  | text (bytes : List UInt8) : WellFormed (encodeText bytes)
  | list {values : List (List UInt8)}
      (elements : ∀ value ∈ values, WellFormed value) :
      WellFormed (ch 'l' :: values.flatten ++ [ch 'e'])
  | dict {entries : List (List UInt8 × List UInt8)}
      (sorted :
        entries.Pairwise (fun first second => first.1 < second.1))
      (values : ∀ entry ∈ entries, WellFormed entry.2) :
      WellFormed (dictBytes entries)

/-- A dictionary whose keys are sorted and whose values are well-formed. -/
structure Dictionary where
  entries : List (List UInt8 × List UInt8)
  sorted : entries.Pairwise (fun first second => first.1 < second.1)
  values : ∀ entry ∈ entries, WellFormed entry.2

def Dictionary.bytes (dictionary : Dictionary) : List UInt8 :=
  dictBytes dictionary.entries

/-- Where the text of a key stands among entries. -/
def keyOffset (key : List UInt8) : List (List UInt8 × List UInt8) → Nat
  | [] => 0
  | (other, value) :: rest =>
      if other = key then
        (decimal key.length).length + 1
      else
        (encodeText other ++ value).length + keyOffset key rest

section Dictionary

variable {key value : List UInt8}

/-- A key, its value and the entries that follow. -/
theorem keyOffset_drop {entries : List (List UInt8 × List UInt8)}
    (sorted : entries.Pairwise (fun first second => first.1 < second.1))
    (member : (key, value) ∈ entries) :
    ∃ rest, (entries.flatMap
        (fun entry => encodeText entry.1 ++ entry.2)).drop
          (keyOffset key entries) = key ++ (value ++ rest) := by
  induction entries with
  | nil => cases member
  | cons entry others inductionHypothesis =>
      rcases entry with ⟨other, found⟩
      rw [List.pairwise_cons] at sorted
      by_cases same : other = key
      · have isEntry : found = value := by
          rcases List.mem_cons.mp member with here | further
          · exact (Prod.mk.inj here).2.symm
          · have less := sorted.1 _ further
            rw [same] at less
            exact absurd less (List.lt_irrefl _)
        refine ⟨others.flatMap
          (fun entry => encodeText entry.1 ++ entry.2), ?_⟩
        have split : encodeText key ++ value ++ others.flatMap
            (fun entry => encodeText entry.1 ++ entry.2) =
              (decimal key.length ++ [ch ':']) ++ (key ++ (value ++
                others.flatMap
                  (fun entry => encodeText entry.1 ++ entry.2))) := by
          simp [encodeText]
        rw [keyOffset, if_pos same, List.flatMap_cons, same, isEntry, split,
          List.drop_left' (by simp)]
      · have further : (key, value) ∈ others := by
          rcases List.mem_cons.mp member with here | further
          · exact absurd (Prod.mk.inj here).1.symm same
          · exact further
        rcases inductionHypothesis sorted.2 further with ⟨rest, split⟩
        refine ⟨rest, ?_⟩
        rw [keyOffset, if_neg same, List.flatMap_cons, ← List.drop_drop,
          List.drop_left, split]

/-- A dictionary down to one of its entries. -/
theorem Dictionary.bytes_drop (dictionary : Dictionary)
    (member : (key, value) ∈ dictionary.entries) :
    ∃ rest, dictionary.bytes.drop (1 + keyOffset key dictionary.entries) =
      key ++ (value ++ rest) := by
  rcases keyOffset_drop dictionary.sorted member with ⟨rest, split⟩
  refine ⟨rest ++ [ch 'e'].drop (keyOffset key dictionary.entries -
    (dictionary.entries.flatMap
      (fun entry => encodeText entry.1 ++ entry.2)).length), ?_⟩
  rw [Dictionary.bytes, dictBytes, List.cons_append, Nat.add_comm,
    List.drop_succ_cons, List.drop_append, split]
  simp only [List.append_assoc]

end Dictionary

end BencodeFormat
