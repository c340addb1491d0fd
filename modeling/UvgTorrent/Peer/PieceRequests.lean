import UvgTorrent.Peer.Packets
import UvgTorrent.Utils.NetUtils

/-!
# Piece requests on either host

`Peer_Request_Piece_Request_init` stores constants in place of its two
arguments, and converts only the length of the message to network order.
-/

namespace UvgTorrent

open CProgram CText CArray MachineInt

/-- `Peer_Request_Piece_Request_init`, which uses neither argument. -/
def peerRequestPieceRequestInitOn (around : Surroundings)
    (order : ByteOrder) (_pieceNum _pieceSize : Int) :
    Exec PacketRequest := do
  let msgLength := htonlUtil order 13
  let id : UInt8 := 6
  let index : UInt32 := 0
  let start : UInt32 := 0
  let pieceLength : UInt32 := 32
  let bytes ← (around.block 17).copyFields 0
    [store32 order msgLength, [id], store32 order index,
      store32 order start, store32 order pieceLength]
  pure ⟨bytes.cells, bytes.stray⟩

/-- A request for `size` bytes from the start of a piece. -/
def pieceRequest (index size : Nat) : List UInt8 :=
  networkBytes 4 13 ++ [6] ++ networkBytes 4 index ++ networkBytes 4 0 ++
    networkBytes 4 size

/-- The request that is built asks for the piece and the size given. -/
def EncodesPiece (order : ByteOrder) (index size : Nat) : Prop :=
  ∀ around, ∃ request,
    peerRequestPieceRequestInitOn around order index size = .ok request ∧
    request.bytes = pieceRequest index size

/-- The number that a host leaves in network order when it stores a constant
without converting it. -/
def unconverted (order : ByteOrder) (value : Nat) : Nat :=
  bigEndian (store order 4 value)

section Requests

variable {order : ByteOrder}

/-- What is built, whatever the arguments are. -/
theorem peerRequestPieceRequestInitOn_eq (around : Surroundings)
    (order : ByteOrder) (pieceNum pieceSize : Int) :
    peerRequestPieceRequestInitOn around order pieceNum pieceSize =
      .ok ⟨networkBytes 4 13 ++ [6] ++ store order 4 0 ++ store order 4 0 ++
        store order 4 32, []⟩ := by
  have fills : [store32 order (htonlUtil order 13), [6],
      store32 order 0, store32 order 0, store32 order 32].flatten =
        networkBytes 4 13 ++ [6] ++ store order 4 0 ++ store order 4 0 ++
          store order 4 32 := by
    rw [store32_htonl]
    simp only [List.flatten_cons, List.flatten_nil, List.append_nil,
      List.append_assoc]
    rfl
  have size : (networkBytes 4 13 ++ [6] ++ store order 4 0 ++
      store order 4 0 ++ store order 4 32).length =
        (around.block 17).cells.length := by
    rw [Surroundings.block_length]
    simp
  have copied := Buffer.copyFields_fill (fills ▸ size)
  rw [peerRequestPieceRequestInitOn, copied, ok_bind, fills]
  rfl

/-- On a little-endian host it is the request of the conversation. -/
theorem peerRequestPieceRequestInitOn_little (around : Surroundings)
    (pieceNum pieceSize : Int) :
    peerRequestPieceRequestInitOn around .little pieceNum pieceSize =
      .ok peerRequestPieceRequestInit := by
  have bytes : networkBytes 4 13 ++ [6] ++ store .little 4 0 ++
      store .little 4 0 ++ store .little 4 32 =
        peerRequestPieceRequestInit.bytes := by
    decide
  have stray : peerRequestPieceRequestInit.stray = [] := by
    decide
  rw [peerRequestPieceRequestInitOn_eq, bytes, ← stray]

theorem store_zero (order : ByteOrder) :
    store order 4 0 = networkBytes 4 0 := by
  cases order with
  | little => rfl
  | big => rfl

theorem networkBytes_inj {first second : Nat}
    (firstBound : first < 256 ^ 4) (secondBound : second < 256 ^ 4)
    (same : networkBytes 4 first = networkBytes 4 second) :
    first = second := by
  have numbers := congrArg bigEndian same
  rwa [bigEndian_networkBytes, bigEndian_networkBytes,
    Nat.mod_eq_of_lt firstBound, Nat.mod_eq_of_lt secondBound] at numbers

/-- The two arguments are told by the bytes of a request. -/
theorem pieceRequest_inj {first second firstSize secondSize : Nat}
    (firstBound : first < 256 ^ 4) (secondBound : second < 256 ^ 4)
    (firstSizeBound : firstSize < 256 ^ 4)
    (secondSizeBound : secondSize < 256 ^ 4)
    (same : pieceRequest first firstSize = pieceRequest second secondSize) :
    first = second ∧ firstSize = secondSize := by
  have split := List.append_inj same (by simp)
  have fields := List.append_inj split.1 (by simp)
  have front := List.append_inj fields.1 (by simp)
  exact ⟨networkBytes_inj firstBound secondBound front.2,
    networkBytes_inj firstSizeBound secondSizeBound split.2⟩

theorem unconverted_lt (order : ByteOrder) (value : Nat) :
    unconverted order value < 256 ^ 4 := by
  have bound := bigEndian_lt (store order 4 value)
  rwa [store_length] at bound

theorem store_eq_networkBytes (order : ByteOrder) (value : Nat) :
    store order 4 value = networkBytes 4 (unconverted order value) := by
  have back := networkBytes_bigEndian (store order 4 value)
  rw [store_length] at back
  exact back.symm

/-- Every request is the one for the start of piece 0, of a size that the
host decides. -/
theorem peerRequestPieceRequestInitOn_pieceRequest (around : Surroundings)
    (order : ByteOrder) (pieceNum pieceSize : Int) :
    peerRequestPieceRequestInitOn around order pieceNum pieceSize =
      .ok ⟨pieceRequest 0 (unconverted order 32), []⟩ := by
  rw [peerRequestPieceRequestInitOn_eq, pieceRequest,
    ← store_eq_networkBytes, store_zero]

theorem encodesPiece_iff {index size : Nat} (indexBound : index < 2 ^ 31)
    (sizeBound : size < 2 ^ 31) :
    EncodesPiece order index size ↔
      index = 0 ∧ size = unconverted order 32 := by
  constructor
  · intro encodes
    rcases encodes ⟨0, fun _ => 0⟩ with ⟨request, built, bytes⟩
    rw [peerRequestPieceRequestInitOn_pieceRequest] at built
    cases built
    have bound := unconverted_lt order 32
    have told := pieceRequest_inj (by decide) (by omega) bound (by omega)
      bytes
    exact ⟨told.1.symm, told.2.symm⟩
  · intro told around
    rcases told with ⟨rfl, rfl⟩
    exact ⟨_, peerRequestPieceRequestInitOn_pieceRequest around order _ _,
      rfl⟩

end Requests

theorem unconverted_little : unconverted .little 32 = 2 ^ 29 := by
  decide

theorem unconverted_big : unconverted .big 32 = 32 := by
  decide

/-- A request encodes its arguments exactly when they are the constants that
are stored, and two requests never differ. -/
theorem peerRequestPieceRequestInitOn_encodes_iff (order : ByteOrder)
    {index size : Nat} (indexBound : index < 2 ^ 31)
    (sizeBound : size < 2 ^ 31) :
    (EncodesPiece order index size ↔
      index = 0 ∧
        (order = .little ∧ size = 2 ^ 29 ∨ order = .big ∧ size = 32)) ∧
    ∀ (around other : Surroundings) (otherIndex otherSize : Int),
      ∃ request,
        peerRequestPieceRequestInitOn around order index size =
          .ok request ∧
        peerRequestPieceRequestInitOn other order otherIndex otherSize =
          .ok request := by
  constructor
  · rw [encodesPiece_iff indexBound sizeBound]
    cases order with
    | little => simp [unconverted_little]
    | big => simp [unconverted_big]
  · intro around other otherIndex otherSize
    exact ⟨_, peerRequestPieceRequestInitOn_pieceRequest around order _ _,
      peerRequestPieceRequestInitOn_pieceRequest other order _ _⟩

theorem peerRequestPieceRequestInitOn_encodes_second :
    (EncodesPiece .little 1 16384 ↔
      1 = 0 ∧
        (ByteOrder.little = .little ∧ 16384 = 2 ^ 29 ∨
          ByteOrder.little = .big ∧ 16384 = 32)) ∧
    ∀ (around other : Surroundings) (otherIndex otherSize : Int),
      ∃ request,
        peerRequestPieceRequestInitOn around .little (1 : Nat)
          (16384 : Nat) = .ok request ∧
        peerRequestPieceRequestInitOn other .little otherIndex otherSize =
          .ok request :=
  peerRequestPieceRequestInitOn_encodes_iff .little (by decide) (by decide)

/-- The second piece is asked for with the bytes of the first, and with a
size whose bytes are reversed. -/
theorem peerRequestPieceRequestInitOn_misencodes :
    ¬ EncodesPiece .little 1 16384 := by
  rw [encodesPiece_iff (by decide) (by decide)]
  decide

end UvgTorrent
