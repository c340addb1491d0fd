import UvgTorrent.Peer.KeyLookup

/-!
# The parameters of a peer

`Peer_extended_handshake` takes over whatever numbers the reply announces, as
long as the size is not 0.
-/

namespace UvgTorrent

open CProgram CText CArray MachineInt NetStream

/-! ## A handshake that succeeds -/

/-- The array that a reply is received into. -/
def Surroundings.received (around : Surroundings) (reply : List UInt8) :
    List UInt8 :=
  reply ++ (around.block replyBufferSize).cells.drop reply.length

/-- The numbers that are read out of a reply, when nothing stands for 0. -/
structure Announces (around : Surroundings) (reply : List UInt8)
    (size extension : Int) : Prop where
  size : ScansTo (scanNumber around.address HandshakeKey.metadataSize.text
    (around.received reply) reply.length) size
  extension : ScansTo (scanNumber around.address HandshakeKey.utMetadata.text
    (around.received reply) reply.length) extension

/-- The request goes out, and a reply comes. -/
structure Replies (peer : Peer) (reply : List UInt8) : Prop where
  isOpen : ∃ fd, peer.socket.sockDesc = some fd
  sent : peer.socket.sends.head = true
  arrived : peer.socket.stream.arrival replyBufferSize = some reply
  nonempty : reply ≠ []

/-- What the handshake makes of a peer. -/
structure Greeted (peer : Peer) (size extension : Int) (after : Peer) :
    Prop where
  metadataSize : after.metadataSize = size
  numPieces : after.numPieces = size.tdiv (16 * 1024)
  utMetadata : after.utMetadata = extension
  sockDesc : after.socket.sockDesc = peer.socket.sockDesc
  sends : after.socket.sends = peer.socket.sends.tail
  stream : after.socket.stream = peer.socket.stream.after replyBufferSize

section Handshake

variable {around : Surroundings} {peer after : Peer} {reply : List UInt8}
  {size extension : Int}

theorem peerExtendedHandshakeResponseInit_announces
    (announces : Announces around reply size extension) :
    ∃ response, peerExtendedHandshakeResponseInit around.address
        (around.received reply) reply.length = .ok response ∧
      response.metadataSize = size ∧
      response.numPieces = size.tdiv (16 * 1024) ∧
      response.utMetadata = extension := by
  have scans : ∀ key : HandshakeKey, ScansTo (scanNumber around.address
      key.text (around.received reply) reply.length)
        (key.field ⟨size, 0, 0, extension⟩) := by
    intro key
    cases key with
    | metadataSize => exact announces.size
    | utMetadata => exact announces.extension
  rcases peerExtendedHandshakeResponseInit_ok_iff.mpr scans with
    ⟨response, answered, fields⟩
  have sameSize : response.metadataSize = size := fields .metadataSize
  have pieces := peerExtendedHandshakeResponseInit_numPieces answered
  rw [sameSize] at pieces
  exact ⟨response, answered, sameSize, pieces, fields .utMetadata⟩

theorem announces_of_responseInit {response : PeerExtendedHandshakeResponse}
    (answered : peerExtendedHandshakeResponseInit around.address
      (around.received reply) reply.length = .ok response) :
    Announces around reply response.metadataSize response.utMetadata ∧
      response.numPieces = response.metadataSize.tdiv (16 * 1024) := by
  have scans := peerExtendedHandshakeResponseInit_ok_iff.mp
    ⟨response, answered, fun key => Eq.refl (key.field response)⟩
  exact ⟨⟨scans .metadataSize, scans .utMetadata⟩,
    peerExtendedHandshakeResponseInit_numPieces answered⟩

/-- The receive of a reply. -/
theorem extendedReceive_from {socket : Socket} {fd : Nat}
    (isOpen : socket.sockDesc = some fd)
    (arrived : socket.stream.arrival replyBufferSize = some reply)
    (nonempty : reply ≠ []) :
    (peerExtendedHandshakePacketReceive around).from socket =
      ((peerExtendedHandshakeResponseInit around.address
          (around.received reply) reply.length).map some,
        { socket with
          stream := socket.stream.after replyBufferSize
          log := socket.log ++ [.receive (some fd),
            .received reply.length] }) := by
  have asked : toSize (replyBufferSize : Int) = replyBufferSize := by
    decide
  have received := socketReceive_from isOpen (replyBufferSize : Int)
  rw [asked, arrived] at received
  have most := ByteStream.arrival_length_le arrived
  have inside : 0 + reply.length ≤
      (around.block replyBufferSize).cells.length := by
    rw [Surroundings.block_length]
    omega
  have copied := Buffer.copyIn_of_le inside
  rw [List.take_zero, List.nil_append, Nat.zero_add] at copied
  have counts : 0 < recvCount (some reply) := by
    have positive := List.length_pos_iff.mpr nonempty
    rw [recvCount]
    omega
  rw [peerExtendedHandshakePacketReceive, bind_from_ok received,
    Option.getD_some, copied, bind_from_ok (liftExec_from _ _),
    if_pos counts, bind_from, liftExec_from]
  unfold recvCount Surroundings.received
  cases peerExtendedHandshakeResponseInit around.address
      (reply ++ (around.block replyBufferSize).cells.drop reply.length)
      reply.length with
  | error stop => rfl
  | ok response => rfl

/-- Without a reply nothing is read. -/
theorem extendedReceive_none {socket : Socket} {fd : Nat}
    (isOpen : socket.sockDesc = some fd)
    (nothing : ∀ reply,
      socket.stream.arrival replyBufferSize = some reply → reply = []) :
    ∃ log, (peerExtendedHandshakePacketReceive around).from socket =
      (.ok none, { socket with
        stream := socket.stream.after replyBufferSize
        log := log }) := by
  have asked : toSize (replyBufferSize : Int) = replyBufferSize := by
    decide
  have received := socketReceive_from isOpen (replyBufferSize : Int)
  rw [asked] at received
  have empty : (socket.stream.arrival replyBufferSize).getD [] = [] := by
    cases arrived : socket.stream.arrival replyBufferSize with
    | none => rfl
    | some reply => exact nothing reply arrived
  have noCount :
      ¬ 0 < recvCount (socket.stream.arrival replyBufferSize) := by
    cases arrived : socket.stream.arrival replyBufferSize with
    | none => decide
    | some reply =>
        rw [nothing reply arrived]
        decide
  have inside : 0 + ([] : List UInt8).length ≤
      (around.block replyBufferSize).cells.length :=
    Nat.zero_le _
  rw [peerExtendedHandshakePacketReceive, bind_from_ok received, empty,
    Buffer.copyIn_of_le inside, bind_from_ok (liftExec_from _ _),
    if_neg noCount]
  exact ⟨_, rfl⟩

/-- The fields that a response sets, and the test of the size. -/
def takeOver (received : Option PeerExtendedHandshakeResponse) :
    Prog Peer ExitCode :=
  match received with
  | some response =>
      if response.metadataSize ≠ 0 then do
        modifyState fun peer => { peer with
          utMetadata := response.utMetadata
          metadataSize := response.metadataSize
          numPieces := response.numPieces
          pieceSize := response.pieceSize }
        pure .success
      else
        pure .failure
  | none => pure .failure

/-- The socket behind the request. -/
def Socket.asked (socket : Socket) (fd : Nat) : Socket :=
  { socket with
    sends := socket.sends.tail
    log := socket.log ++
      [.send (some fd) peerExtendedHandshakeRequestInit.bytes] }

/-- The call behind a send that succeeds. -/
theorem peerExtendedHandshake_sent {fd : Nat}
    (isOpen : peer.socket.sockDesc = some fd)
    (goes : peer.socket.sends.head = true) :
    (peerExtendedHandshake around).from peer =
      (onSocket (peerExtendedHandshakePacketReceive around) >>=
        takeOver).from { peer with socket := peer.socket.asked fd } := by
  have sent := socketSend_from isOpen peerExtendedHandshakeRequestInit.bytes
  rw [if_pos goes] at sent
  rw [peerExtendedHandshake, onSocket_bind_from_ok sent]
  rfl

theorem peerExtendedHandshake_succeeds (replies : Replies peer reply)
    (announces : Announces around reply size extension) (nonzero : size ≠ 0) :
    ∃ after, (peerExtendedHandshake around).from peer =
        (.ok .success, after) ∧ Greeted peer size extension after := by
  rcases replies.isOpen with ⟨fd, isOpen⟩
  rcases peerExtendedHandshakeResponseInit_announces announces with
    ⟨response, answered, sizeSame, pieces, extensionSame⟩
  have received := @extendedReceive_from around reply
    (peer.socket.asked fd) fd isOpen replies.arrived replies.nonempty
  rw [answered] at received
  rw [peerExtendedHandshake_sent isOpen replies.sent,
    onSocket_bind_from_ok received, takeOver, sizeSame, if_pos nonzero]
  exact ⟨_, rfl, rfl, pieces, extensionSame, rfl, rfl, rfl⟩

/-- A call that succeeds has sent its request. -/
theorem peerExtendedHandshake_needs
    (ran : (peerExtendedHandshake around).from peer =
      (.ok .success, after)) :
    (∃ fd, peer.socket.sockDesc = some fd) ∧
      peer.socket.sends.head = true := by
  rw [peerExtendedHandshake] at ran
  cases isOpen : peer.socket.sockDesc with
  | none =>
      have stopped : ((socketSend
          peerExtendedHandshakeRequestInit.bytes).from peer.socket).1 =
            .error .nullPointer := by
        simp only [socketSend, bind_from, getState_from, setState_from,
          isOpen, liftExec_from]
      have whole := congrArg Prod.fst ran
      rw [bind_from_stops (by rw [onSocket_from]; exact stopped)] at whole
      cases whole
  | some fd =>
      refine ⟨⟨fd, rfl⟩, ?_⟩
      have sent := socketSend_from isOpen
        peerExtendedHandshakeRequestInit.bytes
      cases goes : peer.socket.sends.head with
      | true => rfl
      | false =>
          rw [goes] at sent
          rw [onSocket_bind_from_ok sent] at ran
          cases ran

theorem peerExtendedHandshake_success
    (ran : (peerExtendedHandshake around).from peer =
      (.ok .success, after)) :
    ∃ reply size extension, Replies peer reply ∧
      Announces around reply size extension ∧ size ≠ 0 ∧
      Greeted peer size extension after := by
  rcases peerExtendedHandshake_needs ran with ⟨⟨fd, isOpen⟩, goes⟩
  rw [peerExtendedHandshake_sent isOpen goes] at ran
  by_cases nothing : ∀ reply,
      peer.socket.stream.arrival replyBufferSize = some reply → reply = []
  · rcases @extendedReceive_none around (peer.socket.asked fd) fd isOpen
      nothing with ⟨final, silent⟩
    rw [onSocket_bind_from_ok silent] at ran
    cases ran
  · push Not at nothing
    rcases nothing with ⟨reply, arrived, nonempty⟩
    have received := @extendedReceive_from around reply
      (peer.socket.asked fd) fd isOpen arrived nonempty
    cases answered : peerExtendedHandshakeResponseInit around.address
        (around.received reply) reply.length with
    | error stop =>
        rw [answered] at received
        have whole := congrArg Prod.fst ran
        rw [bind_from_stops (by rw [onSocket_from, received]; rfl)] at whole
        cases whole
    | ok response =>
        rw [answered] at received
        rw [onSocket_bind_from_ok received] at ran
        rcases announces_of_responseInit answered with ⟨announces, pieces⟩
        by_cases nonzero : response.metadataSize ≠ 0
        · rw [takeOver, if_pos nonzero] at ran
          cases ran
          exact ⟨reply, _, _, ⟨⟨fd, isOpen⟩, goes, arrived, nonempty⟩,
            announces, nonzero, rfl, pieces, rfl, rfl, rfl, rfl⟩
        · rw [takeOver, if_neg nonzero] at ran
          cases ran

end Handshake

/-! ## Usable parameters -/

/-- What the arrays of the callers and the one byte of the id need. -/
structure Usable (peer : Peer) : Prop where
  size : 0 < peer.metadataSize
  pieces : 1 ≤ peer.numPieces
  product : peer.metadataSize * peer.numPieces ≤ 2 ^ 31 - 1
  idLower : 1 ≤ peer.utMetadata
  idUpper : peer.utMetadata ≤ 255

/-- The numbers that pass the arrays and the byte. -/
structure Fits (size extension : Int) : Prop where
  lower : 16384 ≤ size
  upper : size ≤ 5932275
  idLower : 1 ≤ extension
  idUpper : extension ≤ 255

theorem pieces_bound {size : Int} (positive : 0 < size) :
    1 ≤ size.tdiv (16 * 1024) ∧
        size * size.tdiv (16 * 1024) ≤ 2 ^ 31 - 1 ↔
      16384 ≤ size ∧ size ≤ 5932275 := by
  have quotient : size.tdiv (16 * 1024) = size / 16384 :=
    Int.tdiv_eq_ediv_of_nonneg positive.le
  rw [quotient]
  constructor
  · intro bounds
    rcases bounds with ⟨one, product⟩
    refine ⟨by omega, ?_⟩
    by_contra large
    have many : 362 ≤ size / 16384 := by
      omega
    have exceeds : (5932276 : Int) * 362 ≤ size * (size / 16384) :=
      mul_le_mul (by omega) many (by decide) positive.le
    omega
  · intro bounds
    rcases bounds with ⟨lower, upper⟩
    have few : size / 16384 ≤ 362 := by
      omega
    have product : size * (size / 16384) ≤ (5932275 : Int) * 362 :=
      mul_le_mul upper few (by omega) (by decide)
    exact ⟨by omega, by omega⟩

theorem Greeted.usable_iff {peer after : Peer} {size extension : Int}
    (greeted : Greeted peer size extension after) :
    Usable after ↔ Fits size extension := by
  constructor
  · intro usable
    rcases usable with ⟨positive, pieces, product, idLower, idUpper⟩
    rw [greeted.metadataSize] at positive
    rw [greeted.numPieces] at pieces
    rw [greeted.metadataSize, greeted.numPieces] at product
    rw [greeted.utMetadata] at idLower idUpper
    have bounds := (pieces_bound positive).mp ⟨pieces, product⟩
    exact ⟨bounds.1, bounds.2, idLower, idUpper⟩
  · intro fits
    rcases fits with ⟨lower, upper, idLower, idUpper⟩
    have positive : 0 < size := by
      omega
    have bounds := (pieces_bound positive).mpr ⟨lower, upper⟩
    constructor
    · rwa [greeted.metadataSize]
    · rw [greeted.numPieces]
      exact bounds.1
    · rw [greeted.metadataSize, greeted.numPieces]
      exact bounds.2
    · rwa [greeted.utMetadata]
    · rwa [greeted.utMetadata]

/-- Whatever a peer announces, a handshake that succeeds leaves usable
parameters if and only if the size is 0 or the numbers fit. -/
theorem peerExtendedHandshake_usable_iff (around : Surroundings)
    (peer : Peer) :
    (∀ after, (peerExtendedHandshake around).from peer =
      (.ok .success, after) → Usable after) ↔
    ∀ reply size extension, Replies peer reply →
      Announces around reply size extension →
        size = 0 ∨ Fits size extension := by
  constructor
  · intro usable reply size extension replies announces
    by_cases zero : size = 0
    · exact .inl zero
    · rcases peerExtendedHandshake_succeeds replies announces zero with
        ⟨after, ran, greeted⟩
      exact .inr (greeted.usable_iff.mp (usable after ran))
  · intro fits after ran
    rcases peerExtendedHandshake_success ran with
      ⟨reply, size, extension, replies, announces, nonzero, greeted⟩
    rcases fits reply size extension replies announces with zero | fit
    · exact absurd zero nonzero
    · exact greeted.usable_iff.mpr fit

/-- A peer that is connected and sends a reply in one piece. -/
def replyingPeer (reply : List UInt8) : Peer where
  socket := {
    sockDesc := some 3
    connecting := .connected 3
    sends := .const true
    stream := .cutAt reply (.const 2047)
    log := [] }
  utMetadata := 0
  metadataSize := 0
  numPieces := 0
  pieceSize := 0

/-- The reply of a peer whose metadata is one byte long. -/
def tinyReply : List UInt8 :=
  bigEndian32 45 ++ [20, 0] ++
    text "d1:md11:ut_metadatai3ee13:metadata_sizei1ee"

def blankSurroundings : Surroundings :=
  ⟨0, fun _ => 0⟩

theorem tinyReply_replies : Replies (replyingPeer tinyReply) tinyReply where
  isOpen := ⟨3, rfl⟩
  sent := rfl
  arrived := rfl
  nonempty := by
    decide

theorem tinyReply_announces : Announces blankSurroundings tinyReply 1 3 where
  size := ⟨some 1, by decide +kernel, rfl⟩
  extension := ⟨some 3, by decide +kernel, rfl⟩

theorem tinyReply_unusable :
    ¬ ∀ after, (peerExtendedHandshake blankSurroundings).from
      (replyingPeer tinyReply) = (.ok .success, after) → Usable after := by
  intro usable
  rcases peerExtendedHandshake_succeeds tinyReply_replies
    tinyReply_announces (by decide) with ⟨after, ran, greeted⟩
  have pieces := (usable after ran).pieces
  rw [greeted.numPieces] at pieces
  revert pieces
  decide

end UvgTorrent
