import UvgTorrent.Peer.Packets
import UvgTorrent.Peer.State

/-!
# The handshake

The request carries the decoded info hash.  The reply is taken with one
`recv` into an array whose other bytes hold whatever they held before, and
nothing in it is compared with what was sent.
-/

namespace UvgTorrent

open CProgram CText CArray MachineInt NetStream

def isHexDigit (byte : UInt8) : Bool :=
  isDigit byte || (ch 'a' ≤ byte && byte ≤ ch 'f') ||
    (ch 'A' ≤ byte && byte ≤ ch 'F')

def hexValue (byte : UInt8) : UInt8 :=
  if isDigit byte then byte - ch '0'
  else if ch 'a' ≤ byte then byte - ch 'a' + 10
  else byte - ch 'A' + 10

/-- An info hash in hexadecimal. -/
structure InfoHash where
  digits : List UInt8
  length : digits.length = 40
  hex : ∀ digit ∈ digits, isHexDigit digit

/-- What `sscanf` with `%2hhx` stores for each pair of digits. -/
def decodeHex : List UInt8 → List UInt8
  | high :: low :: rest => (16 * hexValue high + hexValue low) :: decodeHex rest
  | _ => []

/-- `Peer_Handshake_Request_init`. -/
def peerHandshakeRequestInit (infoHash : InfoHash) (peerId : List UInt8) :
    PacketRequest :=
  let bytes := (Buffer.zeroed 68).store 0 19
  let bytes := bytes.storeAll 1 (text "BitTorrent protocol" ++ [0])
  let bytes := bytes.storeAll 20 [0, 0, 0, 0, 0, 0x10, 0, 0]
  let bytes := bytes.storeAll 28 (decodeHex infoHash.digits)
  let bytes := bytes.storeAll 48 (peerId ++ [0])
  ⟨bytes.cells, bytes.stray⟩

structure PeerHandshakeResponse where
  pstrlen : UInt8
  pstr : List UInt8
  peerId : List UInt8

/-- `Peer_Handshake_Response_init`, which does not read the size. -/
def peerHandshakeResponseInit (rawResponse : List UInt8) :
    Exec PeerHandshakeResponse := do
  let pstrlen ← peek rawResponse 0
  let pstr ← slice rawResponse 1 19
  let peerId ← slice rawResponse 48 20
  pure ⟨pstrlen, pstr, peerId⟩

/-- The size of the array a reply is received into. -/
def replyBufferSize : Nat := 2048

/-- `Peer_Handshake_Packet_receive`; `none` is `EXIT_FAILURE`. -/
def peerHandshakePacketReceive (around : Surroundings) :
    Prog Socket (Option PeerHandshakeResponse) := do
  let arrived ← socketReceive replyBufferSize
  let out ← liftExec
    ((around.block replyBufferSize).copyIn 0 (arrived.getD []))
  if 0 < recvCount arrived then
    let response ← liftExec (peerHandshakeResponseInit out.cells)
    pure (some response)
  else
    pure none

/-- `Peer_handshake`. -/
def peerHandshake (around : Surroundings) (infoHash : InfoHash) :
    Prog Peer ExitCode := do
  match ← onSocket socketConnect with
  | .success =>
      let handshake := peerHandshakeRequestInit infoHash
        (text "-UVG012345678912345-")
      match ← onSocket (socketSend handshake.bytes) with
      | .success =>
          -- the result only decides which mark is printed
          let _ ← onSocket (peerHandshakePacketReceive around)
          pure .success
      | .failure => pure .failure
  | .failure => pure .failure

/-! ## What the handshake accepts -/

theorem hexValue_lt (byte : UInt8) :
    isHexDigit byte = true → (hexValue byte).toNat < 16 := by
  revert byte
  apply forall_byte
  decide +kernel

theorem decodeHex_length (digits : List UInt8) :
    (decodeHex digits).length = digits.length / 2 := by
  induction digits using decodeHex.induct with
  | case1 high low rest inductionHypothesis =>
      simp only [decodeHex, List.length_cons, inductionHypothesis]
      omega
  | case2 digits short =>
      rcases digits with _ | ⟨high, _ | ⟨low, rest⟩⟩
      · rfl
      · simp [decodeHex]
      · exact absurd rfl (short high low rest)

/-- The hash that is sent in bytes 28 to 47 of the request. -/
theorem peerHandshakeRequestInit_hash (infoHash : InfoHash)
    (peerId : List UInt8) :
    ((peerHandshakeRequestInit infoHash peerId).bytes.drop 28).take 20 =
      decodeHex infoHash.digits := by
  have hashLength : (decodeHex infoHash.digits).length = 20 := by
    rw [decodeHex_length, infoHash.length]
  simp only [peerHandshakeRequestInit]
  generalize start : ((((Buffer.zeroed 68).store 0 19).storeAll 1
    (text "BitTorrent protocol" ++ [0])).storeAll 20
      [0, 0, 0, 0, 0, 0x10, 0, 0]) = reserved
  have size : reserved.cells.length = 68 := by
    rw [← start, Buffer.storeAll_length, Buffer.storeAll_length,
      Buffer.store_length]
    exact List.length_replicate
  have front : (reserved.cells.take 28).length = 28 := by
    rw [List.length_take, size]
    rfl
  have stored := @Buffer.storeAll_of_le reserved 28
    (decodeHex infoHash.digits) (by rw [hashLength, size]; decide)
  have swapped : ∀ cells : List UInt8,
      (cells.drop 28).take 20 = (cells.take 48).drop 28 := fun cells =>
    (List.drop_take (i := 28) (j := 48)).symm
  have both : (reserved.cells.take 28 ++
      decodeHex infoHash.digits).length = 48 := by
    rw [List.length_append, front, hashLength]
  rw [swapped, Buffer.storeAll_take, stored, List.take_left' both,
    List.drop_left' front]

section Receive

variable {socket : Socket} {fd : Nat}

theorem peerHandshakeResponseInit_answers {out : List UInt8}
    (size : out.length = replyBufferSize) :
    ∃ response, peerHandshakeResponseInit out = .ok response := by
  have bufferSize : replyBufferSize = 2048 := rfl
  obtain ⟨byte, first⟩ : ∃ byte, peek out 0 = .ok byte :=
    ⟨out[0], by
      rw [peek_eq_ok_iff]
      exact List.getElem?_eq_getElem (by omega)⟩
  refine ⟨⟨byte, (out.drop 1).take 19, (out.drop 48).take 20⟩, ?_⟩
  rw [peerHandshakeResponseInit, first, ok_bind, slice_of_le (by omega),
    ok_bind, slice_of_le (by omega)]
  rfl

theorem peerHandshakePacketReceive_answers (around : Surroundings)
    (isOpen : socket.sockDesc = some fd) :
    ∃ response, (peerHandshakePacketReceive around).from socket =
      (.ok response, { socket with
        stream := socket.stream.after replyBufferSize
        log := socket.log ++ [.receive (some fd), .received
          (recvCount (socket.stream.arrival replyBufferSize))] }) := by
  have asked : toSize replyBufferSize = replyBufferSize := by decide
  have short : 0 + ((socket.stream.arrival replyBufferSize).getD
      []).length ≤ (around.block replyBufferSize).cells.length := by
    rw [Surroundings.block_length]
    cases arrived : socket.stream.arrival replyBufferSize with
    | none => simp
    | some bytes =>
        have most := ByteStream.arrival_length_le arrived
        simpa using most
  obtain ⟨out, placed⟩ : ∃ out, (around.block replyBufferSize).copyIn 0
      ((socket.stream.arrival replyBufferSize).getD []) = .ok out :=
    ⟨_, Buffer.copyIn_of_le short⟩
  have size : out.cells.length = replyBufferSize := by
    rw [(Buffer.copyIn_ok placed).1, Surroundings.block_length]
  rcases peerHandshakeResponseInit_answers size with ⟨response, responded⟩
  rw [peerHandshakePacketReceive,
    bind_from_ok (socketReceive_from isOpen _), asked,
    bind_from_ok (by rw [liftExec_from, placed])]
  split
  · rw [bind_from_ok (by rw [liftExec_from, responded])]
    exact ⟨_, rfl⟩
  · exact ⟨_, rfl⟩

end Receive

/-- A reply that a handshake may be accepted on. -/
structure GoodHandshake (infoHash : InfoHash) (reply : List UInt8) :
    Prop where
  whole : 68 ≤ reply.length
  pstrlen : reply[0]? = some 19
  pstr : (reply.drop 1).take 19 = text "BitTorrent protocol"
  hash : (reply.drop 28).take 20 = decodeHex infoHash.digits

/-- The bytes that the handshake receives are a good reply. -/
def ReceivesGood (infoHash : InfoHash) (stream : ByteStream) : Prop :=
  ∃ reply, stream.arrival replyBufferSize = some reply ∧
    GoodHandshake infoHash reply

/-- The handshake returns, and with success only on a good reply. -/
def AcceptsSoundly (infoHash : InfoHash) (peer : Peer) : Prop :=
  ∀ around, ∃ code final,
    (peerHandshake around infoHash).from peer = (.ok code, final) ∧
    (code = .success → ReceivesGood infoHash peer.socket.stream)

section Accept

variable {peer : Peer} {infoHash : InfoHash}

theorem peerHandshake_refused (around : Surroundings)
    (failing : peer.socket.connecting = .socketFails ∨
      peer.socket.connecting = .refused) :
    (peerHandshake around infoHash).from peer = (.ok .failure,
      { peer with socket := { peer.socket with sockDesc := none } }) := by
  have connected : socketConnect.from peer.socket =
      (.ok .failure, { peer.socket with sockDesc := none }) := by
    rcases failing with fails | fails <;>
      simp only [socketConnect, bind_from, getState_from, fails,
        setState_from, pure_from]
  rw [peerHandshake, onSocket_bind_from_ok connected, pure_from]

theorem peerHandshake_unknown (around : Surroundings)
    (unknown : peer.socket.connecting = .hostUnknown) :
    (peerHandshake around infoHash).from peer = (.error .exited, peer) := by
  have exited : (onSocket socketConnect).from peer =
      (.error .exited, peer) := by
    simp only [onSocket_from, socketConnect, bind_from, getState_from,
      unknown, liftExec_from]
  rw [peerHandshake]
  exact bind_from_error exited _

/-- The request that the handshake sends. -/
def handshakeMessage (infoHash : InfoHash) : List UInt8 :=
  (peerHandshakeRequestInit infoHash (text "-UVG012345678912345-")).bytes

/-- What a connected handshake adds to the log. -/
def handshakeEvents (infoHash : InfoHash) (socket : Socket) (fd : Nat) :
    List Event :=
  .opened fd :: .send (some fd) (handshakeMessage infoHash) ::
    if socket.sends.head then
      [.receive (some fd), .received
        (recvCount (socket.stream.arrival replyBufferSize))]
    else
      []

/-- A connected handshake answers with the result of its send. -/
theorem peerHandshake_connected (around : Surroundings) {fd : Nat}
    (connects : peer.socket.connecting = .connected fd) :
    ∃ final, (peerHandshake around infoHash).from peer =
        (.ok (if peer.socket.sends.head then .success else .failure),
          final) ∧
      final.socket.sockDesc = some fd ∧
      final.socket.log =
        peer.socket.log ++ handshakeEvents infoHash peer.socket fd := by
  have connected : socketConnect.from peer.socket =
      (.ok .success, { peer.socket with sockDesc := some fd }.record
        (.opened fd)) := by
    simp only [socketConnect, bind_from, getState_from, connects,
      setState_from, pure_from]
  have sending := @socketSend_from ({ peer.socket with
    sockDesc := some fd }.record (.opened fd)) fd rfl
      (handshakeMessage infoHash)
  obtain ⟨after, ran, isOpen, stream, log⟩ : ∃ after,
      (socketSend (handshakeMessage infoHash)).from
          ({ peer.socket with sockDesc := some fd }.record (.opened fd)) =
        (.ok (if peer.socket.sends.head then .success else .failure),
          after) ∧
      after.sockDesc = some fd ∧ after.stream = peer.socket.stream ∧
      after.log = peer.socket.log ++
        [.opened fd, .send (some fd) (handshakeMessage infoHash)] := by
    refine ⟨_, sending, rfl, rfl, ?_⟩
    exact List.append_assoc _ _ _
  rw [handshakeMessage] at ran
  rw [peerHandshake, onSocket_bind_from_ok connected]
  simp only
  rw [onSocket_bind_from_ok ran, handshakeEvents]
  cases sent : peer.socket.sends.head with
  | false =>
      exact ⟨_, rfl, isOpen, log⟩
  | true =>
      obtain ⟨response, answered⟩ :=
        peerHandshakePacketReceive_answers around isOpen
      simp only [if_true]
      rw [onSocket_bind_from_ok answered]
      refine ⟨_, rfl, isOpen, ?_⟩
      show after.log ++ _ = _
      rw [log, stream, List.append_assoc]
      rfl

/-- The handshake is sound exactly when no connection is made, the send
fails, or the reply is good. -/
theorem peerHandshake_acceptsSoundly_iff (infoHash : InfoHash)
    (peer : Peer) :
    AcceptsSoundly infoHash peer ↔
      peer.socket.connecting = .socketFails ∨
      peer.socket.connecting = .refused ∨
      (∃ fd, peer.socket.connecting = .connected fd) ∧
        (peer.socket.sends.head = false ∨
          ReceivesGood infoHash peer.socket.stream) := by
  constructor
  · intro sound
    rcases sound ⟨0, fun _ => 0⟩ with ⟨code, final, ran, good⟩
    cases connecting : peer.socket.connecting with
    | socketFails =>
        exact .inl rfl
    | refused =>
        exact .inr (.inl rfl)
    | hostUnknown =>
        have exited := @peerHandshake_unknown peer infoHash
          ⟨0, fun _ => 0⟩ connecting
        rw [ran] at exited
        cases exited
    | connected fd =>
        refine .inr (.inr ⟨⟨fd, rfl⟩, ?_⟩)
        obtain ⟨after, answered, _⟩ := @peerHandshake_connected peer
          infoHash ⟨0, fun _ => 0⟩ fd connecting
        rw [ran] at answered
        cases sent : peer.socket.sends.head with
        | false =>
            exact .inl rfl
        | true =>
            rw [sent] at answered
            cases answered
            exact .inr (good rfl)
  · intro condition around
    rcases condition with fails | refused | ⟨⟨fd, connects⟩, outcome⟩
    · exact ⟨.failure, _, peerHandshake_refused around (.inl fails), nofun⟩
    · exact ⟨.failure, _, peerHandshake_refused around (.inr refused), nofun⟩
    · rcases peerHandshake_connected around connects with ⟨final, ran, _⟩
      refine ⟨_, final, ran, fun succeeded => ?_⟩
      rcases outcome with lost | good
      · rw [lost] at succeeded
        cases succeeded
      · exact good

end Accept

def zeroHash : InfoHash where
  digits := List.replicate 40 (ch '0')
  length := List.length_replicate
  hex := fun digit member => by
    rw [List.eq_of_mem_replicate member]
    decide

/-- A peer that accepts the connection and the request and closes. -/
def silentPeer : Peer where
  socket := {
    sockDesc := none
    connecting := .connected 3
    sends := .const true
    stream := .cutAt [] (.const 0)
    log := [] }
  utMetadata := 0
  metadataSize := 0
  numPieces := 0
  pieceSize := 0

theorem peerHandshake_accepts_silence :
    ¬ AcceptsSoundly zeroHash silentPeer := by
  intro sound
  rcases sound ⟨0, fun _ => 0⟩ with ⟨code, final, ran, good⟩
  obtain ⟨after, answered, _⟩ := @peerHandshake_connected silentPeer zeroHash
    ⟨0, fun _ => 0⟩ 3 rfl
  rw [ran] at answered
  cases answered
  rcases good rfl with ⟨reply, arrived, whole, _⟩
  have nothing : silentPeer.socket.stream.arrival replyBufferSize =
      some [] :=
    rfl
  rw [nothing] at arrived
  cases arrived
  exact absurd whole (by decide)

end UvgTorrent
