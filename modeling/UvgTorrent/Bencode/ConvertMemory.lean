import Mathlib.Algebra.BigOperators.Fin
import UvgTorrent.Bencode.Convert
import UvgTorrent.DataStructures.HashmapValues
import UvgTorrent.Library.Builds

/-!
# From bencode to a hash map in memory

`bencode_to_hashmap` once more, with the blocks of its maps and lists.  Their
allocations are taken to succeed.  A map and a list are stored as a copy of
their header, and the header itself is freed; what it pointed to belongs to
the copy.
-/

namespace UvgTorrent.InBlocks

open CProgram CText CArray MachineInt CBlocks

/-- A node of a list, with the block of its value. -/
structure HeldNode (α : Type) where
  node : Nat
  value : Nat
  object : α

/-- A bucket, with the blocks of its key and of its value. -/
structure HeldEntry (α : Type) where
  bucket : Nat
  key : Nat
  value : Nat
  object : α

/-- An `Object` with the blocks of what it is made of. -/
inductive HeldObject where
  | bytes (bytes : List UInt8)
  | long (value : Int)
  | list (values : Linkedlist (HeldNode HeldObject))
  | map (entries : Hashmap (HeldEntry HeldObject))

abbrev HeldList := Linkedlist (HeldNode HeldObject)

abbrev HeldMap := Hashmap (HeldEntry HeldObject)

/-! ## What is held -/

mutual

/-- The object without the blocks. -/
def plainObject : HeldObject → Object
  | .bytes bytes => .bytes bytes
  | .long value => .long value
  | .list ⟨values, count⟩ => .list ⟨plainValues values, count⟩
  | .map ⟨count, buckets⟩ =>
      .map ⟨count, fun slot => plainBucket (buckets slot)⟩

def plainNode : HeldNode HeldObject → Object
  | ⟨_, _, object⟩ => plainObject object

def plainEntry : HeldEntry HeldObject → Object
  | ⟨_, _, _, object⟩ => plainObject object

def plainValues : List (HeldNode HeldObject) → List Object
  | [] => []
  | held :: rest => plainNode held :: plainValues rest

def plainBucket : Bucket (HeldEntry HeldObject) → Bucket Object
  | .null => .null
  | .node key value next => .node key (plainValue value) (plainBucket next)

def plainValue : Option (HeldEntry HeldObject) → Option Object
  | none => none
  | some held => some (plainEntry held)

end

mutual

/-- The blocks of what the object is made of. -/
def insideObject : HeldObject → Multiset Nat
  | .bytes _ => 0
  | .long _ => 0
  | .list ⟨values, _⟩ => insideValues values
  | .map ⟨_, buckets⟩ => ∑ slot, insideBucket (buckets slot)

def insideNode : HeldNode HeldObject → Multiset Nat
  | ⟨node, value, object⟩ => {node} + ({value} + insideObject object)

def insideEntry : HeldEntry HeldObject → Multiset Nat
  | ⟨bucket, key, value, object⟩ =>
      {bucket} + ({key} + ({value} + insideObject object))

def insideValues : List (HeldNode HeldObject) → Multiset Nat
  | [] => 0
  | held :: rest => insideNode held + insideValues rest

def insideBucket : Bucket (HeldEntry HeldObject) → Multiset Nat
  | .null => 0
  | .node _ value next => insideValue value + insideBucket next

def insideValue : Option (HeldEntry HeldObject) → Multiset Nat
  | none => 0
  | some held => insideEntry held

end

mutual

/-- The number of blocks that an object is made of. -/
def objectTakes : Object → Nat
  | .bytes _ => 0
  | .long _ => 0
  | .list ⟨values, _⟩ => valuesTake values
  | .map ⟨_, buckets⟩ => ∑ slot, bucketTakes (buckets slot)

/-- A node and a value for each element of a list. -/
def valuesTake : List Object → Nat
  | [] => 0
  | object :: rest => 2 + objectTakes object + valuesTake rest

/-- A bucket, a key and a value for each entry of a map. -/
def bucketTakes : Bucket Object → Nat
  | .null => 0
  | .node _ value next => valueTakes value + bucketTakes next

def valueTakes : Option Object → Nat
  | none => 0
  | some object => 3 + objectTakes object

end

/-- The values of a chain, first one first. -/
def bucketValues {α : Type} : Bucket α → List α
  | .null => []
  | .node _ none next => bucketValues next
  | .node _ (some value) next => value :: bucketValues next

/-- Somewhere in the object is a map that has no room left. -/
inductive HasFullMap : Object → Prop
  | here {map : Hashmap Object}
      (full : maxHashtableKeys ≤ map.bucketCount) : HasFullMap (.map map)
  | value {map : Hashmap Object} {slot : Fin maxHashtableKeys}
      {object : Object} (member : object ∈ bucketValues (map.buckets slot))
      (inside : HasFullMap object) : HasFullMap (.map map)
  | item {list : Linkedlist Object} {object : Object}
      (member : object ∈ list.values) (inside : HasFullMap object) :
      HasFullMap (.list list)

/-! ## The conversion -/

section Converter

variable (memory : List UInt8)

/-- `Linkedlist_append`, with the blocks of the node. -/
def appendHeld (list : HeldList) (object : HeldObject) :
    Prog Blocks HeldList := do
  let node ← mallocOne
  let value ← mallocOne
  pure (linkedlistAppend list ⟨node, value, object⟩).2

/-- `Hashmap_set`, with the blocks of the bucket. -/
def storeHeld (map : HeldMap) (key : CString) :
    Option HeldObject → Prog Blocks HeldMap
  | some object => do
      if map.bucketCount < maxHashtableKeys then
        let hash ← liftExec (hashmapGetHash key.bytes)
        let bucket ← mallocOne
        let heldKey ← mallocOne
        let value ← mallocOne
        pure (storeInSlot map (bucketIndex hash) key
          ⟨bucket, heldKey, value, object⟩)
      else
        pure map
  | none => pure map

/-- The branch for a byte string. -/
def heldString (be : Bencode) : Exec HeldObject := do
  let (str, len) ← bencodeStringValue memory be
  let val ← terminatedCopy memory (toInt32 (len + 1)) str len
  pure (.bytes (val.cells.take len.toNat))

/-- What a value is converted to, and the header that is freed once the value
is stored. -/
abbrev HeldValue := Option HeldObject × List Nat

def convertElementInBlocks (convert : Bencode → Prog Blocks (Nat × HeldMap))
    (benl : Bencode) : Prog Blocks HeldValue := do
  if ← liftExec (bencodeIsDict memory benl) then
    let (child, map) ← convert benl
    pure (some (.map map), [child])
  else if ← liftExec (bencodeIsString memory benl) then
    let object ← liftExec (heldString memory benl)
    pure (some object, [])
  else
    pure (none, [])

def convertItemInBlocks (convert : Bencode → Prog Blocks (Nat × HeldMap))
    (benl : Bencode) (done : HeldList) : Prog Blocks HeldList := do
  let (element, header) ← convertElementInBlocks memory convert benl
  match element with
  | some object =>
      let list ← appendHeld done object
      freeAll header
      pure list
  | none => pure done

def convertListInBlocks (iterate : Iterate)
    (convert : Bencode → Prog Blocks (Nat × HeldMap)) :
    Nat → Bencode → HeldList → Prog Blocks HeldList
  | 0, _, _ => liftExec (.error .unfinished)
  | fuel + 1, benk, done => do
      let (more, benk) ← liftExec (bencodeListHasNext memory benk)
      if more then
        match ← liftExec (bencodeListGetNext memory iterate benk) with
        | .ended _ => liftExec (.error .uninitialised)
        | .failed benk benl =>
            let done ← convertItemInBlocks memory convert benl done
            convertListInBlocks iterate convert fuel benk done
        | .found benk benl =>
            let done ← convertItemInBlocks memory convert benl done
            convertListInBlocks iterate convert fuel benk done
      else
        pure done

def convertValueInBlocks (iterate : Iterate)
    (convert : Bencode → Prog Blocks (Nat × HeldMap)) (fuel : Nat)
    (benk : Bencode) : Prog Blocks HeldValue := do
  if ← liftExec (bencodeIsDict memory benk) then
    let (child, map) ← convert benk
    pure (some (.map map), [child])
  else if ← liftExec (bencodeIsInt memory benk) then
    let value ← liftExec (bencodeIntValue memory benk)
    pure (some (.long (value.getD 0)), [])
  else if ← liftExec (bencodeIsString memory benk) then
    let object ← liftExec (heldString memory benk)
    pure (some object, [])
  else if ← liftExec (bencodeIsList memory benk) then
    let list ← mallocOne
    let values ←
      convertListInBlocks memory iterate convert fuel benk linkedlistNew
    pure (some (.list values), [list])
  else
    pure (none, [])

def convertEntryInBlocks (iterate : Iterate)
    (convert : Bencode → Prog Blocks (Nat × HeldMap)) (fuel : Nat)
    (next : DictItem) (done : HeldMap) : Prog Blocks HeldMap := do
  let dictKey ← liftExec (terminatedCopy memory next.klen next.key next.klen)
  let (object, header) ←
    convertValueInBlocks memory iterate convert fuel next.item
  let map ← storeHeld done (CString.ofBytes dictKey.cells) object
  freeAll header
  pure map

def convertDictInBlocks (iterate : Iterate)
    (convert : Bencode → Prog Blocks (Nat × HeldMap)) :
    Nat → Bencode → HeldMap → Prog Blocks HeldMap
  | 0, _, _ => liftExec (.error .unfinished)
  | fuel + 1, be, done => do
      if ← liftExec (bencodeDictHasNext memory be) then
        match ← liftExec (bencodeDictGetNext memory iterate be) with
        | none => pure done
        | some next =>
            let done ← convertEntryInBlocks memory iterate convert fuel next
              done
            convertDictInBlocks iterate convert fuel next.be done
      else
        pure done

/-- `bencode_to_hashmap`: the block of the map, and what is in it. -/
def bencodeToHashmapInBlocks : Nat → Bencode → Prog Blocks (Nat × HeldMap)
  | 0, _ => liftExec (.error .unfinished)
  | fuel + 1, be => do
      let hashmap ← mallocOne
      if ← liftExec (bencodeIsDict memory be) then
        let map ← convertDictInBlocks memory
          (iterateToNextStringPos memory fuel)
          (bencodeToHashmapInBlocks fuel) fuel be hashmapNew
        pure (hashmap, map)
      else
        pure (hashmap, hashmapNew)

end Converter

/-! ## Objects and their blocks -/

mutual

theorem insideObject_card : ∀ held : HeldObject,
    Multiset.card (insideObject held) = objectTakes (plainObject held)
  | .bytes bytes => by
      rw [insideObject, plainObject, objectTakes]
      rfl
  | .long value => by
      rw [insideObject, plainObject, objectTakes]
      rfl
  | .list ⟨values, count⟩ => by
      rw [insideObject, plainObject, objectTakes]
      exact insideValues_card values
  | .map ⟨count, buckets⟩ => by
      rw [insideObject, plainObject, objectTakes, Multiset.card_sum]
      apply Finset.sum_congr rfl
      intro slot _
      exact insideBucket_card (buckets slot)

theorem insideNode_card : ∀ held : HeldNode HeldObject,
    Multiset.card (insideNode held) = 2 + objectTakes (plainNode held)
  | ⟨node, value, object⟩ => by
      rw [insideNode, plainNode, Multiset.card_add, Multiset.card_add,
        insideObject_card object, Multiset.card_singleton,
        Multiset.card_singleton, ← add_assoc]

theorem insideEntry_card : ∀ held : HeldEntry HeldObject,
    Multiset.card (insideEntry held) = 3 + objectTakes (plainEntry held)
  | ⟨bucket, key, value, object⟩ => by
      rw [insideEntry, plainEntry, Multiset.card_add, Multiset.card_add,
        Multiset.card_add, insideObject_card object, Multiset.card_singleton,
        Multiset.card_singleton, Multiset.card_singleton, ← add_assoc,
        ← add_assoc]

theorem insideValues_card : ∀ values : List (HeldNode HeldObject),
    Multiset.card (insideValues values) = valuesTake (plainValues values)
  | [] => by
      rw [insideValues, plainValues, valuesTake]
      rfl
  | held :: rest => by
      rw [insideValues, plainValues, valuesTake, Multiset.card_add,
        insideNode_card held, insideValues_card rest]

theorem insideBucket_card : ∀ bucket : Bucket (HeldEntry HeldObject),
    Multiset.card (insideBucket bucket) = bucketTakes (plainBucket bucket)
  | .null => by
      rw [insideBucket, plainBucket, bucketTakes]
      rfl
  | .node key value next => by
      rw [insideBucket, plainBucket, bucketTakes, Multiset.card_add,
        insideValue_card value, insideBucket_card next]

theorem insideValue_card : ∀ value : Option (HeldEntry HeldObject),
    Multiset.card (insideValue value) = valueTakes (plainValue value)
  | none => by
      rw [insideValue, plainValue, valueTakes]
      rfl
  | some held => by
      rw [insideValue, plainValue, valueTakes, insideEntry_card held]

end

section Objects

variable {map : HeldMap} {kept : List (CString × HeldEntry HeldObject)}
  {key : CString} {held : HeldEntry HeldObject}

end Objects

/-! ## The same conversion without the blocks -/

section Conversion

variable {memory : List UInt8} {iterate : Iterate}
  {convert : Bencode → Prog Blocks (Nat × HeldMap)}
  {plainConvert : Bencode → Exec Converted} {lost : Multiset Nat}

end Conversion

end UvgTorrent.InBlocks
