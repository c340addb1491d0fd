import UvgTorrent.Bencode.ConvertMemory
import UvgTorrent.Peer.Metadata

/-!
# The metadata in memory

What `Peer_get_metadata` does with the dictionary of the metadata, with its
blocks.  It destroys the list of the files, their maps and their paths.  What
other values are made of stays behind.
-/

namespace UvgTorrent.InBlocks

open CProgram CText CArray MachineInt CBlocks

/-! ## What is destroyed -/

/-- What `Linkedlist_destroy` frees in front of the list. -/
def valuesBlocks : List (HeldNode HeldObject) → List Nat
  | [] => []
  | held :: rest => held.value :: valuesBlocks rest ++ [held.node]

/-- The same once the values have been cleared. -/
def nodesBlocks : List (HeldNode HeldObject) → List Nat
  | [] => []
  | held :: rest => nodesBlocks rest ++ [held.node]

/-- What `Bucket_destroy` frees, if it comes to its end. -/
def bucketBlocks : Bucket (HeldEntry HeldObject) → List Nat
  | .null => []
  | .node _ none next => bucketBlocks next
  | .node _ (some held) next =>
      held.key :: held.value :: bucketBlocks next ++ [held.bucket]

/-- What `Hashmap_destroy` frees in front of the map. -/
def mapBlocks (map : HeldMap) : List Nat :=
  (List.finRange maxHashtableKeys).flatMap fun slot =>
    bucketBlocks (map.buckets slot)

/-- A value that the code takes for a list. -/
def asHeldList : Option (HeldEntry HeldObject) → Exec HeldList
  | none => .error .nullPointer
  | some ⟨_, _, _, .list values⟩ => .ok values
  | some _ => .error .readPast

def asHeldMap : HeldNode HeldObject → Exec HeldMap
  | ⟨_, _, .map entries⟩ => .ok entries
  | _ => .error .readPast

/-- The list in a bucket, and what the bucket holds. -/
def heldListIn : Bucket (HeldEntry HeldObject) →
    Exec (HeldEntry HeldObject × HeldList)
  | .null => .error .nullPointer
  | .node _ none _ => .error .nullPointer
  | .node _ (some held) _ => do
      let list ← asHeldList (some held)
      pure (held, list)

/-- `Hashmap_destroy` on a map that has lost the value of a bucket.  The
bucket and its key are still there. -/
def destroyHeldMap (this : Nat) (cleared : HeldEntry HeldObject)
    (map : HeldMap) : Prog Blocks Unit := do
  -- a slot with two buckets stops here
  liftExec (freeEach (hashmapDestroy map))
  freeAll (mapBlocks map ++ [cleared.key, cleared.bucket] ++ [this])

/-! ## The file list -/

/-- The body of the loop over the files.  The map of the file is the value of
the node. -/
def consumeFileInBlocks (order : ByteOrder) (depth : Nat)
    (node : HeldNode HeldObject) : Prog Blocks FileLine := do
  let file ← liftExec (asHeldMap node)
  let length ← liftExec (hashmapGet file (some lengthKey) depth)
  let path ← liftExec (hashmapGet file (some pathKey) depth)
  let line ← liftExec (printFileLine order (length.map plainEntry)
    (path.map plainEntry))
  let pathBucket ← liftExec (hashmapGetBucket file (some pathKey))
  let (held, list) ← liftExec (heldListIn pathBucket)
  freeAll (valuesBlocks list.values ++ [held.value])
  let cleared ← liftExec (hashmapClear file pathKey)
  destroyHeldMap node.value held cleared
  pure line

def consumeFilesInBlocks (order : ByteOrder) (depth : Nat) :
    List (HeldNode HeldObject) → Prog Blocks (List FileLine)
  | [] => pure []
  | node :: rest => do
      let line ← consumeFileInBlocks order depth node
      let lines ← consumeFilesInBlocks order depth rest
      pure (line :: lines)

/-- `Peer_get_metadata` from its call of `bencode_init` on. -/
def consumeInfoInBlocks (order : ByteOrder) (depth : Nat)
    (assembly : Assembly) : Prog Blocks (List FileLine × ExitCode) := do
  let bencoded ← mallocOne
  let (hashmap, map) ← bencodeToHashmapInBlocks assembly.metaData.cells depth
    (bencodeInit (some 0) assembly.metadataPos)
  free bencoded
  let files ← liftExec (hashmapGet map (some filesKey) depth)
  let files ← liftExec (asHeldList files)
  let filesBucket ← liftExec (hashmapGetBucket map (some filesKey))
  let lines ← consumeFilesInBlocks order depth files.values
  let (held, list) ← liftExec (heldListIn filesBucket)
  -- the loop has cleared the values of the nodes
  freeAll (nodesBlocks list.values ++ [held.value])
  let cleared ← liftExec (hashmapClear map filesKey)
  destroyHeldMap hashmap held cleared
  pure (lines, .success)

/-! ## What stays behind -/

/-- What `Bucket_destroy` leaves: what the values are made of. -/
def bucketLeft : Bucket Object → Nat
  | .null => 0
  | .node _ none next => bucketLeft next
  | .node _ (some object) next => objectTakes object + bucketLeft next

/-- What `Hashmap_destroy` leaves. -/
def mapLeft (map : Hashmap Object) : Nat :=
  ∑ slot, bucketLeft (map.buckets slot)

/-- The list in the first bucket of the slot of a key. -/
def listUnder (map : Hashmap Object) (key : CString) : List Object :=
  match map.buckets (slotOf key) with
  | .node _ (some (.list list)) _ => list.values
  | _ => []

/-- What is left of a file: what its values are made of, but not the nodes of
its path with their values. -/
def fileLeft : Object → Nat
  | .map file => mapLeft file - 2 * (listUnder file pathKey).length
  | _ => 0

/-- What is left of a dictionary: what its values are made of, but of the list
of the files only what is left of each file. -/
def dictionaryLeft (map : Hashmap Object) : Nat :=
  mapLeft map - valuesTake (listUnder map filesKey) +
    ((listUnder map filesKey).map fileLeft).sum

/-- The number of blocks that the metadata leaves. -/
def metadataLeft (order : ByteOrder) (depth : Nat) (assembly : Assembly) :
    Nat :=
  leftBy (consumeInfoInBlocks order depth assembly)

/-- The number is what the dictionary leaves, if none of its maps is full. -/
def LeavesDictionary (depth : Nat) (assembly : Assembly) (left : Nat) : Prop :=
  ∀ converted, bencodeToHashmap assembly.metaData.cells depth
      (bencodeInit (some 0) assembly.metadataPos) = .ok converted →
    HasFullMap (.map converted.map) ∨ left = dictionaryLeft converted.map

/-! ## What the blocks of a list and of a map are -/

section Parts

end Parts

/-! ## The same without the blocks -/

section Plain

variable {α β : Type} {given : Multiset Nat}
  {follows : α → β → Multiset Nat → Multiset Nat → Prop}

end Plain

section Consuming

variable {order : ByteOrder} {depth : Nat}

end Consuming

end UvgTorrent.InBlocks
