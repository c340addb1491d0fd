import UvgTorrent.Bencode.Cursor
import UvgTorrent.DataStructures.Hashmap
import UvgTorrent.DataStructures.Linkedlist
import UvgTorrent.Library.Buffer

/-!
# From bencode to a hash map

`bencodeToHashmap` walks a dictionary with the reader and stores each value
under its key.  The two local arrays of the source, `dict_key` and `val`,
are filled by the same sequence of a copy and a store of the terminator,
which is `terminatedCopy`; only their sizes differ.
-/

namespace UvgTorrent

open CProgram CText CArray MachineInt

/-- What the map and the lists hold.  A child map and a list are stored by a
copy of their header, which shares the contents. -/
inductive Object where
  | bytes (bytes : List UInt8)
  | long (value : Int)
  | list (values : Linkedlist Object)
  | map (entries : Hashmap Object)

/-- A map under construction and the stores that missed a local array. -/
structure Converted where
  map : Hashmap Object
  stray : List Nat

section Converter

variable (memory : List UInt8)

/-- Declare an array of `size` cells, copy `count` bytes to its start and
store a terminator behind them.  An array of no cells is allowed. -/
def terminatedCopy (size : Int) (source : Option Nat) (count : Int) :
    Exec Buffer :=
  if size < 0 then
    .error .badSize
  else
    match source with
    | none => .error .nullPointer
    | some position => do
        let bytes ← slice memory position (toSize count)
        let filled ← (Buffer.zeroed size.toNat).copyIn 0 bytes
        pure (filled.store count.toNat 0)

/-- The branch for a byte string, in a dictionary and in a list. -/
def convertString (be : Bencode) : Exec (Object × List Nat) := do
  let (str, len) ← bencodeStringValue memory be
  let val ← terminatedCopy memory (toInt32 (len + 1)) str len
  pure (.bytes (val.cells.take len.toNat), val.stray)

/-- The branches for an element of a list: a dictionary or a byte string,
and nothing for any other kind. -/
def convertElement (convert : Bencode → Exec Converted) (benl : Bencode) :
    Exec (Option Object × List Nat) := do
  if ← bencodeIsDict memory benl then
    let child ← convert benl
    pure (some (.map child.map), child.stray)
  else if ← bencodeIsString memory benl then
    let (object, stray) ← convertString memory benl
    pure (some object, stray)
  else
    pure (none, [])

/-- A list under construction and the stores that missed a local array. -/
abbrev ConvertedList := Linkedlist Object × List Nat

/-- The body of the loop over a list, after its item is taken. -/
def convertItem (convert : Bencode → Exec Converted) (benl : Bencode)
    (done : ConvertedList) : Exec ConvertedList := do
  let (element, missed) ← convertElement memory convert benl
  match element with
  | some object =>
      let (_, list) := linkedlistAppend done.1 object
      pure (list, done.2 ++ missed)
  | none => pure (done.1, done.2 ++ missed)

/-- The loop over a list.  A failed `get_next` is reported and the loop goes
on. -/
def convertList (iterate : Iterate) (convert : Bencode → Exec Converted) :
    Nat → Bencode → ConvertedList → Exec ConvertedList
  | 0, _, _ => .error .unfinished
  | fuel + 1, benk, done => do
      let (more, benk) ← bencodeListHasNext memory benk
      if more then
        match ← bencodeListGetNext memory iterate benk with
        | .ended _ => .error .uninitialised
        | .failed benk benl =>
            let done ← convertItem memory convert benl done
            convertList iterate convert fuel benk done
        | .found benk benl =>
            let done ← convertItem memory convert benl done
            convertList iterate convert fuel benk done
      else
        pure done

def convertValue (iterate : Iterate) (convert : Bencode → Exec Converted)
    (fuel : Nat) (benk : Bencode) : Exec (Option Object × List Nat) := do
  if ← bencodeIsDict memory benk then
    let child ← convert benk
    pure (some (.map child.map), child.stray)
  else if ← bencodeIsInt memory benk then
    -- the number is 0 when it has no digit
    let value ← bencodeIntValue memory benk
    pure (some (.long (value.getD 0)), [])
  else if ← bencodeIsString memory benk then
    let (object, stray) ← convertString memory benk
    pure (some object, stray)
  else if ← bencodeIsList memory benk then
    let (list, stray) ←
      convertList memory iterate convert fuel benk (linkedlistNew, [])
    pure (some (.list list), stray)
  else
    pure (none, [])

/-- `hashmap->set` with its answer dropped; a value of no known kind is not
stored. -/
def storeObject (map : Hashmap Object) (key : CString) :
    Option Object → Exec (Hashmap Object)
  | some object => do
      let (_, map) ← hashmapSet map (some key) (some object)
      pure map
  | none => pure map

/-- The body of the loop over a dictionary, after its entry is taken. -/
def convertEntry (iterate : Iterate) (convert : Bencode → Exec Converted)
    (fuel : Nat) (next : DictItem) (done : Converted) :
    Exec Converted := do
  let dictKey ← terminatedCopy memory next.klen next.key next.klen
  let (object, missed) ←
    convertValue memory iterate convert fuel next.item
  let map ←
    storeObject done.map (CString.ofBytes dictKey.cells) object
  pure ⟨map, done.stray ++ dictKey.stray ++ missed⟩

def convertDict (iterate : Iterate) (convert : Bencode → Exec Converted) :
    Nat → Bencode → Converted → Exec Converted
  | 0, _, _ => .error .unfinished
  | fuel + 1, be, done => do
      if ← bencodeDictHasNext memory be then
        match ← bencodeDictGetNext memory iterate be with
        | none => pure done
        | some next =>
            let done ←
              convertEntry memory iterate convert fuel next done
            convertDict iterate convert fuel next.be done
      else
        pure done

/-- `bencode_to_hashmap`, with at most `fuel` nested calls and loop
rounds. -/
def bencodeToHashmap : Nat → Bencode → Exec Converted
  | 0, _ => .error .unfinished
  | fuel + 1, be => do
      if ← bencodeIsDict memory be then
        convertDict memory (iterateToNextStringPos memory fuel)
          (bencodeToHashmap fuel) fuel be ⟨hashmapNew, []⟩
      else
        pure ⟨hashmapNew, []⟩

end Converter

/-- `bencode_to_hashmap` on `bencode_init(buf, len)`, for a buffer followed
by a `NUL`; its length is passed as an `int`. -/
def convertBuffer (buf : List UInt8) (depth : Nat) : Exec Converted :=
  bencodeToHashmap (buf ++ [0]) depth
    (bencodeInit (some 0) (toInt32 buf.length))

section Copies

variable {memory : List UInt8}

theorem terminatedCopy_of_fits {size position count : Nat}
    (inside : position + count ≤ memory.length)
    (fits : count ≤ size) (small : count < 2 ^ 31) :
    terminatedCopy memory size (some position) count =
      .ok (Buffer.store
        ⟨(memory.drop position).take count ++
          List.replicate (size - count) 0, []⟩ count 0) := by
  have positive : ¬ (size : Int) < 0 := by omega
  have taken : ((memory.drop position).take count).length = count := by
    rw [List.length_take, List.length_drop]
    omega
  have room : 0 + ((memory.drop position).take count).length ≤
      (Buffer.zeroed size).cells.length := by
    rw [taken]
    simpa [Buffer.zeroed, Buffer.ofCells] using fits
  simp only [terminatedCopy, if_neg positive,
    toSize_natCast (show count < 2 ^ 64 by omega), slice_of_le inside,
    ok_bind, Int.toNat_natCast, Buffer.copyIn_of_le room, pure_exec, taken]
  simp [Buffer.zeroed, Buffer.ofCells]

/-- A store into the map always answers, for a key that can be hashed. -/
theorem storeObject_answers (map : Hashmap Object) {key : CString}
    (short : key.bytes.length < 2 ^ 32) (object : Option Object) :
    ∃ after, storeObject map key object = .ok after := by
  cases object with
  | none =>
      exact ⟨map, rfl⟩
  | some object =>
      by_cases room : map.bucketCount < maxHashtableKeys
      · refine ⟨storeInSlot map (slotOf key) key object, ?_⟩
        rw [storeObject, hashmapSet_of_room room short]
        rfl
      · refine ⟨map, ?_⟩
        simp [storeObject, hashmapSet, room]

end Copies

end UvgTorrent
