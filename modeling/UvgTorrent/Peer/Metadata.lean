import UvgTorrent.Bencode.Convert
import UvgTorrent.DataStructures.HashmapDestroy
import UvgTorrent.Library.ByteOrder
import UvgTorrent.Peer.Packets
import UvgTorrent.Peer.State

/-!
# Fetching the metadata

`Peer_get_metadata` asks for one piece after another, collects the replies
in the array `meta_data`, and reads the result as a bencoded dictionary.  It
prints a line for each file of the dictionary and gives the dictionary to
`free`.  A `long` is read there through a pointer to an `int`.
-/

namespace UvgTorrent

open CProgram CText CArray MachineInt

/-- What the machine decides during one call: the first contents of
`meta_data`, the surroundings of each reply, and the order in which the bytes
of a number lie. -/
structure MetadataSurroundings where
  metaData : Nat → UInt8
  reply : Nat → Surroundings
  order : ByteOrder

/-- The array and the running offset of the loop over the pieces. -/
structure Assembly where
  metaData : Buffer
  metadataPos : Int

/-- The copy of a response into `meta_data`. -/
def appendResponse (assembly : Assembly) (response : PeerMetadataResponse) :
    Exec Assembly := do
  let bytes ← slice response.response 0 (toSize response.responseLen)
  let metaData ← assembly.metaData.copyAt assembly.metadataPos bytes
  pure {
    metaData
    metadataPos := toInt32 (assembly.metadataPos + response.responseLen) }

/-- The loop over the pieces.  A failed `send` only skips its piece. -/
def collectPieces (around : MetadataSurroundings) (depth : Nat)
    (utMetadata : Int) :
    Nat → Nat → Assembly → Prog Socket (ExitCode × Assembly)
  | 0, _, assembly => pure (.success, assembly)
  | remaining + 1, piece, assembly => do
      let request := peerMetadataRequestInit piece utMetadata
      match ← socketSend request.bytes with
      | .success =>
          match ← peerMetadataPacketReceive (around.reply piece) depth with
          | some (_, response) =>
              let assembly ← liftExec (appendResponse assembly response)
              collectPieces around depth utMetadata remaining (piece + 1)
                assembly
          | none => pure (.failure, assembly)
      | .failure =>
          collectPieces around depth utMetadata remaining (piece + 1)
            assembly

def newAssembly (around : MetadataSurroundings) (size : Nat) : Assembly :=
  ⟨.ofCells ((List.range size).map around.metaData), 0⟩

/-- The store of a terminator, once every piece is dealt with. -/
def terminate : ExitCode × Assembly → ExitCode × Assembly
  | (.failure, assembly) => (.failure, assembly)
  | (.success, assembly) =>
      (.success, { assembly with
        metaData :=
          assembly.metaData.store (assembly.metadataPos + 1).toNat 0 })

/-- `Peer_get_metadata` up to its call of `bencode_init`, which is handed
the first `metadataPos` bytes of the array. -/
def assembleMetadata (around : MetadataSurroundings) (depth : Nat)
    (metadataSize : Int) : Prog Peer (ExitCode × Assembly) := do
  let peer ← getState
  let size := toInt32 (metadataSize * peer.numPieces)
  if size < 0 then
    liftExec (.error .badSize)
  else
    let collected ← onSocket
      (collectPieces around depth peer.utMetadata peer.numPieces.toNat 0
        (newAssembly around size.toNat))
    pure (terminate collected)

/-! ## The file list -/

theorem noNul_length : 0 ∉ text "length" := by
  decide

theorem noNul_path : 0 ∉ text "path" := by
  decide

theorem noNul_files : 0 ∉ text "files" := by
  decide

def lengthKey : CString := ⟨text "length", noNul_length⟩

def pathKey : CString := ⟨text "path", noNul_path⟩

def filesKey : CString := ⟨text "files", noNul_files⟩

/-- A value that the code takes for a list.  A value of another kind is read
outside its object. -/
def asList : Option Object → Exec (Linkedlist Object)
  | none => .error .nullPointer
  | some (.list values) => .ok values
  | some _ => .error .readPast

def asMap : Option Object → Exec (Hashmap Object)
  | none => .error .nullPointer
  | some (.map entries) => .ok entries
  | some _ => .error .readPast

/-- The destruction of the list in a bucket. -/
def destroyList : Bucket Object → Exec Unit
  | .null => .error .nullPointer
  | .node _ value _ => do
      let _ ← asList value
      pure ()

/-- What is printed for a file: the last part of its path and its length. -/
structure FileLine where
  pathStr : List UInt8
  length : Int
  deriving DecidableEq, Repr

/-- `*length`, where `length` points to a `long`. -/
def intAtLong (order : ByteOrder) (value : Int) : Int :=
  toInt32 (load order ((store order 8 (value % 2 ^ 64).toNat).take 4))

/-- The length and the last part of the path, as they are printed. -/
def printFileLine (order : ByteOrder) (length path : Option Object) :
    Exec FileLine := do
  let path ← asList path
  match path.values.getLast? with
  | none => .error .uninitialised
  | some (.bytes pathStr) =>
      match length with
      | none => .error .nullPointer
      | some (.long value) => .ok ⟨pathStr, intAtLong order value⟩
      | some _ => .error .readPast
  | some _ => .error .readPast

/-- The body of the loop over the files.  The value under `path` is cleared
before the map is destroyed. -/
def consumeFile (order : ByteOrder) (depth : Nat) (value : Object) :
    Exec FileLine := do
  let file ← asMap (some value)
  let length ← hashmapGet file (some lengthKey) depth
  let path ← hashmapGet file (some pathKey) depth
  let line ← printFileLine order length path
  let pathBucket ← hashmapGetBucket file (some pathKey)
  destroyList pathBucket
  let cleared ← hashmapClear file pathKey
  freeEach (hashmapDestroy cleared)
  pure line

def consumeFiles (order : ByteOrder) (depth : Nat) :
    List Object → Exec (List FileLine)
  | [] => pure []
  | value :: rest => do
      let line ← consumeFile order depth value
      let lines ← consumeFiles order depth rest
      pure (line :: lines)

/-- `Peer_get_metadata` from its call of `bencode_init` on: the lines that
are printed and the answer. -/
def consumeInfo (order : ByteOrder) (depth : Nat) (assembly : Assembly) :
    Exec (List FileLine × ExitCode) := do
  let converted ← bencodeToHashmap assembly.metaData.cells depth
    (bencodeInit (some 0) assembly.metadataPos)
  let files ← hashmapGet converted.map (some filesKey) depth
  let files ← asList files
  let filesBucket ← hashmapGetBucket converted.map (some filesKey)
  let lines ← consumeFiles order depth files.values
  destroyList filesBucket
  let cleared ← hashmapClear converted.map filesKey
  freeEach (hashmapDestroy cleared)
  pure (lines, .success)

/-- What is read to its end is answered with `EXIT_SUCCESS`. -/
theorem consumeInfo_success {order : ByteOrder} {depth : Nat}
    {assembly : Assembly} {answer : List FileLine × ExitCode}
    (ran : consumeInfo order depth assembly = .ok answer) :
    answer.2 = .success := by
  simp only [consumeInfo, bind_eq_ok_iff] at ran
  rcases ran with ⟨_, _, _, _, _, _, _, _, _, _, _, _, _, _, _, _, same⟩
  rw [← Except.ok.inj same]

/-- `Peer_get_metadata`, which does not use its argument `out`. -/
def peerGetMetadata (around : MetadataSurroundings) (depth : Nat)
    (metadataSize : Int) : Prog Peer ExitCode := do
  let (code, assembly) ← assembleMetadata around depth metadataSize
  match code with
  | .failure => pure .failure
  | .success =>
      let (_, code) ← liftExec (consumeInfo around.order depth assembly)
      pure code

end UvgTorrent
