import UvgTorrent.Torrent.HashText

/-!
# The layout of the handshake

The packet is filled by two `strcpy`s, a loop over the reserved bytes and a
copy of the hash.  The terminator of the first string is overwritten; the
one of the second has no room.
-/

namespace UvgTorrent

open CProgram CText CArray MachineInt

/-- `Peer_Handshake_Request_init` on a packet whose array holds what the
block of `malloc` holds. -/
def peerHandshakeRequestInitIn (packet around : Surroundings)
    (infoHash peerId : List UInt8) : Exec PacketRequest := do
  let bytes := (packet.block 68).store 0 19
  let bytes := bytes.storeAll 1 (text "BitTorrent protocol" ++ [0])
  let bytes := bytes.storeAll 20 [0, 0, 0, 0, 0, 0x10, 0, 0]
  let infoHashBytes ← scanInfoHash around infoHash
  let bytes := bytes.storeAll 28 infoHashBytes
  let bytes := bytes.storeAll 48 (peerId ++ [0])
  pure ⟨bytes.cells, bytes.stray⟩

/-- On a block of zeros it is the request that the conversation sends. -/
theorem peerHandshakeRequestInitIn_zeros (around : Surroundings)
    (infoHash peerId : List UInt8) :
    peerHandshakeRequestInitIn ⟨0, fun _ => 0⟩ around infoHash peerId =
      peerHandshakeRequestInitOn around infoHash peerId := by
  have block : (⟨0, fun _ => 0⟩ : Surroundings).block 68 =
      .zeroed 68 := by
    decide
  rw [peerHandshakeRequestInitIn, block]
  rfl

/-- The handshake of the protocol. -/
def handshakeLayout (infoHashBytes peerId : List UInt8) : List UInt8 :=
  [19] ++ text "BitTorrent protocol" ++ [0, 0, 0, 0, 0, 0x10, 0, 0] ++
    infoHashBytes ++ peerId

/-- The handshake is built with every store inside its packet. -/
def BuildsInside (packet around : Surroundings) (infoHash : InfoHash)
    (peerId : CString) : Prop :=
  ∃ request,
    peerHandshakeRequestInitIn packet around (infoHash.digits ++ [0])
      peerId.bytes = .ok request ∧
    request.stray = [] ∧
    request.bytes = handshakeLayout (decodeHex infoHash.digits) peerId.bytes

section Layout

variable {infoHash : InfoHash} {peerId : CString}

/-- The handshake before its terminator is stored. -/
theorem handshakeLayout_stored (packet : Surroundings)
    {infoHashBytes peerId : List UInt8} (hash : infoHashBytes.length = 20)
    (id : peerId.length = 20) :
    (((((packet.block 68).store 0 19).storeAll 1
      (text "BitTorrent protocol" ++ [0])).storeAll 20
        [0, 0, 0, 0, 0, 0x10, 0, 0]).storeAll 28 infoHashBytes).storeAll 48
          peerId = ⟨handshakeLayout infoHashBytes peerId, []⟩ := by
  have size := packet.block_length 68
  have fresh : (packet.block 68).Starts [] := ⟨List.nil_prefix, rfl⟩
  have pstrlen : ((packet.block 68).store 0 19).Starts [19] :=
    @Buffer.Starts.storeAll _ [] [19] 0 fresh (Nat.le_refl 0)
      (by rw [size]; decide)
  have pstr := @Buffer.Starts.storeAll _ [19]
    (text "BitTorrent protocol" ++ [0]) 1 pstrlen (by decide)
    (by rw [Buffer.store_length, size]; decide)
  -- the reserved bytes begin at the terminator of the text
  have reserved := @Buffer.Starts.storeAll _ _
    [0, 0, 0, 0, 0, 0x10, 0, 0] 20 pstr (by decide)
    (by rw [Buffer.storeAll_length, Buffer.store_length, size]; decide)
  have decoded := @Buffer.Starts.storeAll _ _ infoHashBytes 28 reserved
    (by decide) (by simp [hash, size])
  have named := @Buffer.Starts.storeAll _ _ peerId 48 decoded
    (by simp [hash, text]) (by simp [id, size])
  rw [named.whole (by simp [hash, id, size, text])]
  simp [handshakeLayout, text, List.take_of_length_le (Nat.le_of_eq hash)]

/-- A peer id of twenty characters fills the array, and its terminator is
stored behind it. -/
theorem peerHandshakeRequestInitIn_eq (packet around : Surroundings)
    (infoHash : InfoHash) (twenty : peerId.strlen = 20) :
    peerHandshakeRequestInitIn packet around (infoHash.digits ++ [0])
        peerId.bytes =
      .ok ⟨handshakeLayout (decodeHex infoHash.digits) peerId.bytes,
        [68]⟩ := by
  have hash : (decodeHex infoHash.digits).length = 20 := by
    rw [decodeHex_length, infoHash.length]
  have id : peerId.bytes.length = 20 := twenty
  have full : (handshakeLayout (decodeHex infoHash.digits)
      peerId.bytes).length = 68 := by
    simp [handshakeLayout, hash, id, text]
  have behind : Buffer.storeAll
      ⟨handshakeLayout (decodeHex infoHash.digits) peerId.bytes, []⟩
        (48 + peerId.bytes.length) [0] =
      ⟨handshakeLayout (decodeHex infoHash.digits) peerId.bytes, [68]⟩ := by
    rw [id, Buffer.storeAll, Buffer.store_of_le (Nat.le_of_eq full)]
    rfl
  rw [peerHandshakeRequestInitIn, scanInfoHash_digits, ok_bind]
  simp only
  rw [Buffer.storeAll_append, handshakeLayout_stored packet hash id, behind]
  rfl

/-- No handshake is built inside its packet: its bytes are those of the
protocol, but the terminator of the peer id is stored behind them. -/
theorem peerHandshakeRequestInitIn_storesBehind
    (packet around : Surroundings) (infoHash : InfoHash)
    (twenty : peerId.strlen = 20) :
    ¬ BuildsInside packet around infoHash peerId ∧
      peerHandshakeRequestInitIn packet around (infoHash.digits ++ [0])
          peerId.bytes =
        .ok ⟨handshakeLayout (decodeHex infoHash.digits) peerId.bytes,
          [68]⟩ := by
  have built := peerHandshakeRequestInitIn_eq packet around infoHash twenty
  refine ⟨?_, built⟩
  intro inside
  rcases inside with ⟨request, again, clean, _⟩
  cases built.symm.trans again
  cases clean

end Layout

theorem handshakePeerId_noNul : 0 ∉ text "-UVG012345678912345-" := by
  decide

/-- The peer id that `Peer_handshake` passes. -/
def handshakePeerId : CString :=
  ⟨text "-UVG012345678912345-", handshakePeerId_noNul⟩

theorem handshakePeerId_length : handshakePeerId.strlen = 20 := by
  decide

theorem peerHandshakeRequestInitIn_storesBehind_zeros :
    ¬ BuildsInside ⟨0, fun _ => 0⟩ ⟨0, fun _ => 0⟩ zeroHash
        handshakePeerId ∧
      peerHandshakeRequestInitIn ⟨0, fun _ => 0⟩ ⟨0, fun _ => 0⟩
          (zeroHash.digits ++ [0]) handshakePeerId.bytes =
        .ok ⟨handshakeLayout (decodeHex zeroHash.digits)
          handshakePeerId.bytes, [68]⟩ :=
  peerHandshakeRequestInitIn_storesBehind ⟨0, fun _ => 0⟩ ⟨0, fun _ => 0⟩
    zeroHash handshakePeerId_length

/-- The handshake of the program itself. -/
theorem peerHandshakeRequestInitIn_missesPacket :
    ¬ BuildsInside ⟨0, fun _ => 0⟩ ⟨0, fun _ => 0⟩ zeroHash
      handshakePeerId := by
  intro inside
  rcases inside with ⟨request, built, clean, _⟩
  cases (peerHandshakeRequestInitIn_eq ⟨0, fun _ => 0⟩ ⟨0, fun _ => 0⟩
    zeroHash handshakePeerId_length).symm.trans built
  cases clean

end UvgTorrent
