import UvgTorrent.Bencode.Convert
import UvgTorrent.Library.Bencode

/-!
# Which dictionaries are converted faithfully

A conversion is faithful when every key finds its value in the map and no
store misses a local array.  `dict_key` has as many cells as the key has
bytes, so the terminator of the first key that is converted is stored behind
it; a dictionary whose first entry is not reached loses its entries.  Only
the empty dictionary is converted faithfully.
-/

namespace UvgTorrent

open CProgram CText CArray MachineInt BencodeFormat

/-- The object stands for the value.  For a dictionary `lookup` is what the
map finds for each key. -/
inductive Represents : Value → Object → Prop
  | integer (value : Int) : Represents (.integer value) (.long value)
  | text (bytes : List UInt8) : Represents (.text bytes) (.bytes bytes)
  | list {values : List Value} {list : Linkedlist Object}
      (count : list.count = values.length)
      (length : list.values.length = values.length)
      (elements :
        ∀ pair ∈ values.zip list.values, Represents pair.1 pair.2) :
      Represents (.list values) (.list list)
  | dict {entries : Entries} {map : Hashmap Object}
      (lookup : CString → Object)
      (found :
        ∀ entry ∈ entries,
          Returns (hashmapGet map (some entry.1)) (some (lookup entry.1)))
      (values : ∀ entry ∈ entries, Represents entry.2 (lookup entry.1)) :
      Represents (.dict entries) (.map map)

/-- The conversion of the encoding returns a map that stands for the value,
with every store inside its array. -/
def Faithful (value : Value) : Prop :=
  ∃ out, Returns (convertBuffer (encode value)) out ∧
    Represents value (.map out.map) ∧ out.stray = []

section Stray

variable {memory : List UInt8}

/-- The terminator of a copy into an array of the same size is stored behind
it. -/
theorem terminatedCopy_same_size {count : Int} {source : Option Nat}
    {copied : Buffer}
    (ran : terminatedCopy memory count source count = .ok copied) :
    copied.stray = [count.toNat] := by
  unfold terminatedCopy at ran
  split at ran
  · cases ran
  · cases source with
    | none =>
        cases ran
    | some position =>
        simp only [bind_eq_ok_iff, pure_exec] at ran
        obtain ⟨bytes, _, filled, placed, stored⟩ := ran
        obtain ⟨size, stray, _, _⟩ := Buffer.copyIn_ok placed
        cases stored
        have full : filled.cells.length ≤ count.toNat := by
          rw [size]
          simp [Buffer.zeroed, Buffer.ofCells]
        rw [Buffer.store_of_le full, stray]
        rfl

/-- Every entry adds the store behind its key to the record. -/
theorem convertEntry_stray {iterate : Iterate}
    {convert : Bencode → Exec Converted} {fuel : Nat} {next : DictItem}
    {done after : Converted}
    (ran : convertEntry memory iterate convert fuel next done = .ok after) :
    ∃ missed,
      after.stray = done.stray ++ [next.klen.toNat] ++ missed := by
  simp only [convertEntry, bind_eq_ok_iff, pure_exec] at ran
  obtain ⟨dictKey, copied, ⟨object, missed⟩, _, map, _, final⟩ := ran
  cases final
  exact ⟨missed, by rw [terminatedCopy_same_size copied]⟩

/-- A conversion that stores an entry records a stray store, and the record
only grows. -/
theorem convertDict_stray {iterate : Iterate}
    {convert : Bencode → Exec Converted} (fuel : Nat) {be : Bencode}
    {done final : Converted}
    (ran : convertDict memory iterate convert fuel be done = .ok final) :
    final = done ∨
      ∃ index rest, final.stray = done.stray ++ index :: rest := by
  induction fuel generalizing be done with
  | zero =>
      cases ran
  | succ fuel inductionHypothesis =>
      simp only [convertDict, bind_eq_ok_iff] at ran
      obtain ⟨more, _, ran⟩ := ran
      cases more with
      | false =>
          cases ran
          exact .inl rfl
      | true =>
          simp only [if_true, bind_eq_ok_iff] at ran
          obtain ⟨found, _, ran⟩ := ran
          cases found with
          | none =>
              cases ran
              exact .inl rfl
          | some next =>
              simp only [bind_eq_ok_iff] at ran
              obtain ⟨after, entered, walked⟩ := ran
              obtain ⟨missed, stray⟩ := convertEntry_stray entered
              right
              rcases inductionHypothesis walked with rfl | ⟨index, rest, more⟩
              · refine ⟨next.klen.toNat, missed, ?_⟩
                rw [stray, List.append_assoc]
                rfl
              · refine ⟨next.klen.toNat, missed ++ index :: rest, ?_⟩
                rw [more, stray]
                simp

/-- A conversion without a stray store leaves the map empty. -/
theorem bencodeToHashmap_clean {depth : Nat} {be : Bencode}
    {out : Converted} (ran : bencodeToHashmap memory depth be = .ok out)
    (clean : out.stray = []) :
    out = ⟨hashmapNew, []⟩ := by
  cases depth with
  | zero =>
      cases ran
  | succ depth =>
      simp only [bencodeToHashmap, bind_eq_ok_iff] at ran
      obtain ⟨isDict, _, ran⟩ := ran
      cases isDict with
      | false =>
          cases ran
          rfl
      | true =>
          rcases convertDict_stray depth ran with same | ⟨index, rest, grown⟩
          · exact same
          · rw [clean] at grown
            simp at grown

end Stray

theorem hashmapNew_finds_nothing {key : CString} {object : Object} :
    ¬ Returns (hashmapGet hashmapNew (some key)) (some object) := by
  rintro ⟨depth, found⟩
  by_cases short : key.bytes.length < 2 ^ 32
  · rw [hashmapGet_new short] at found
    cases found
  · rw [hashmapGet_long short] at found
    cases found

theorem entries_eq_nil_of_faithful {entries : Entries}
    (faithful : Faithful (.dict entries)) : entries = [] := by
  obtain ⟨out, ⟨depth, ran⟩, represents, clean⟩ := faithful
  have empty := bencodeToHashmap_clean ran clean
  subst empty
  cases entries with
  | nil =>
      rfl
  | cons entry rest =>
      cases represents with
      | dict lookup found _ =>
          have first := found entry List.mem_cons_self
          exact absurd first hashmapNew_finds_nothing

/-- A dictionary is converted faithfully only when it has no entry. -/
theorem bencodeToHashmap_faithful_iff (entries : Entries) :
    Faithful (.dict entries) ↔ entries = [] := by
  constructor
  · exact entries_eq_nil_of_faithful
  · rintro rfl
    refine ⟨⟨hashmapNew, []⟩, ⟨2, rfl⟩, ?_, rfl⟩
    exact .dict (fun _ => .long 0) (by simp) (by simp)

/-- `{"a": 1}` -/
def oneEntry : Value :=
  .dict [(⟨text "a", by decide⟩, .integer 1)]

theorem bencodeToHashmap_unfaithful_oneEntry :
    Canonical oneEntry ∧ ¬ Faithful oneEntry := by
  constructor
  · refine .dict (List.pairwise_singleton _ _) ?_
    intro entry member
    rw [List.mem_singleton] at member
    subst member
    exact .integer (by decide) (by decide)
  · intro faithful
    cases entries_eq_nil_of_faithful faithful

end UvgTorrent
