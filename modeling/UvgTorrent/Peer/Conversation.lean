import UvgTorrent.Library.EventLog
import UvgTorrent.Peer.ExtendedHandshake
import UvgTorrent.Peer.Metadata

/-!
# The order of a conversation

What the log of a socket must have reached before each event, and what the
functions of a peer preserve whenever the calls on its socket do.
-/

namespace UvgTorrent

open CProgram CText CArray EventLog

/-- `Peer_get_piece`, which does not use its argument. -/
def peerGetPiece (depth : Nat) : Prog Peer ExitCode := do
  match ← onSocket (socketSend peerRequestPieceRequestInit.bytes) with
  | .success =>
      match ← onSocket (peerRequestPiecePacketReceive depth) with
      | some _ => pure .success
      | none => pure .failure
  | .failure => pure .failure

/-! ## The order -/

/-- Bytes have been received after the handshake was sent. -/
def handshakeReplied (infoHash : InfoHash) : Milestone Event where
  Reached := fun log => ∃ front count back,
    log = front ++ .received count :: back ∧ 0 < count ∧
    ∃ sockDesc, .send sockDesc (handshakeMessage infoHash) ∈ front
  persists := by
    rintro log event ⟨front, count, back, rfl, positive, sent⟩
    exact ⟨front, count, back ++ [event],
      by rw [List.append_assoc, List.cons_append], positive, sent⟩

/-- The descriptor was opened by a connection. -/
def HoldsOpened (before : List Event) (sockDesc : Option Nat) : Prop :=
  ∃ fd, sockDesc = some fd ∧ .opened fd ∈ before

/-- What must precede a message. -/
structure MessageInOrder (infoHash : InfoHash) (before : List Event)
    (message : List UInt8) : Prop where
  extendedHandshake :
    message = peerExtendedHandshakeRequestInit.bytes →
      (handshakeReplied infoHash).Reached before
  metadata : ∀ pieceNum utMetadata,
    message = (peerMetadataRequestInit pieceNum utMetadata).bytes →
      .returned .extendedHandshake .success ∈ before
  piece :
    message = peerRequestPieceRequestInit.bytes →
      .returned .handshake .success ∈ before

/-- What must precede an event. -/
def Permitted (infoHash : InfoHash) (before : List Event) : Event → Prop
  | .send sockDesc message =>
      HoldsOpened before sockDesc ∧ MessageInOrder infoHash before message
  | .receive sockDesc => HoldsOpened before sockDesc
  | .opened _ | .received _ | .returned _ _ => True

/-- Every call on the socket was made in its order. -/
def InOrder (infoHash : InfoHash) (socket : Socket) : Prop :=
  Orderly (Permitted infoHash) socket.log

section Messages

variable {infoHash : InfoHash} {before : List Event}

theorem handshakeMessage_length (infoHash : InfoHash) :
    (handshakeMessage infoHash).length = 68 := by
  simp only [handshakeMessage, peerHandshakeRequestInit,
    Buffer.storeAll_length, Buffer.store_length]
  exact List.length_replicate

theorem peerMetadataRequestInit_length (pieceNum : Nat) (utMetadata : Int) :
    (peerMetadataRequestInit pieceNum utMetadata).bytes.length = 31 := by
  simp only [peerMetadataRequestInit, Buffer.storeAll_length]
  exact List.length_replicate

theorem peerExtendedHandshakeRequestInit_length :
    peerExtendedHandshakeRequestInit.bytes.length = 30 := by
  simp only [peerExtendedHandshakeRequestInit, Buffer.storeAll_length]
  exact List.length_replicate

theorem peerRequestPieceRequestInit_length :
    peerRequestPieceRequestInit.bytes.length = 17 := by
  simp only [peerRequestPieceRequestInit, Buffer.storeAll_length]
  exact List.length_replicate

theorem ne_of_lengths {first second : List UInt8} {one other : Nat}
    (firstLength : first.length = one) (secondLength : second.length = other)
    (differ : one ≠ other) : first ≠ second := by
  rintro rfl
  exact differ (firstLength.symm.trans secondLength)

theorem handshakeMessage_inOrder :
    MessageInOrder infoHash before (handshakeMessage infoHash) where
  extendedHandshake := fun same => absurd same (ne_of_lengths
    (handshakeMessage_length infoHash)
    peerExtendedHandshakeRequestInit_length (by decide))
  metadata := fun pieceNum utMetadata same => absurd same (ne_of_lengths
    (handshakeMessage_length infoHash)
    (peerMetadataRequestInit_length pieceNum utMetadata) (by decide))
  piece := fun same => absurd same (ne_of_lengths
    (handshakeMessage_length infoHash)
    peerRequestPieceRequestInit_length (by decide))

theorem extendedHandshake_inOrder
    (replied : (handshakeReplied infoHash).Reached before) :
    MessageInOrder infoHash before
      peerExtendedHandshakeRequestInit.bytes where
  extendedHandshake := fun _ => replied
  metadata := fun pieceNum utMetadata same => absurd same (ne_of_lengths
    peerExtendedHandshakeRequestInit_length
    (peerMetadataRequestInit_length pieceNum utMetadata) (by decide))
  piece := fun same => absurd same (ne_of_lengths
    peerExtendedHandshakeRequestInit_length
    peerRequestPieceRequestInit_length (by decide))

theorem metadata_inOrder (pieceNum : Nat) (utMetadata : Int)
    (agreed : .returned .extendedHandshake .success ∈ before) :
    MessageInOrder infoHash before
      (peerMetadataRequestInit pieceNum utMetadata).bytes where
  extendedHandshake := fun same => absurd same (ne_of_lengths
    (peerMetadataRequestInit_length pieceNum utMetadata)
    peerExtendedHandshakeRequestInit_length (by decide))
  metadata := fun _ _ _ => agreed
  piece := fun same => absurd same (ne_of_lengths
    (peerMetadataRequestInit_length pieceNum utMetadata)
    peerRequestPieceRequestInit_length (by decide))

theorem piece_inOrder (succeeded : .returned .handshake .success ∈ before) :
    MessageInOrder infoHash before peerRequestPieceRequestInit.bytes where
  extendedHandshake := fun same => absurd same (ne_of_lengths
    peerRequestPieceRequestInit_length
    peerExtendedHandshakeRequestInit_length (by decide))
  metadata := fun pieceNum utMetadata same => absurd same (ne_of_lengths
    peerRequestPieceRequestInit_length
    (peerMetadataRequestInit_length pieceNum utMetadata) (by decide))
  piece := fun _ => succeeded

end Messages

/-! ## What the functions preserve -/

section Sockets

variable {before invariant stopped : Socket → Prop}

theorem receiveBody_preserves
    (stops : ∀ socket, invariant socket → stopped socket)
    (receives : ∀ size, Preserves invariant stopped (socketReceive size))
    (length depth : Nat) (loop : BodyLoop) :
    Preserves invariant stopped (receiveBody length depth loop) := by
  induction depth generalizing loop with
  | zero =>
      exact .liftExec stops _
  | succ depth inductionHypothesis =>
      rw [receiveBody]
      split
      · apply Preserves.bind (receives _)
        intro arrived
        apply Preserves.bind (.liftExec stops _)
        intro after
        exact inductionHypothesis after
      · exact .pure loop

theorem receiveFrame_preserves {Response : Type}
    (stops : ∀ socket, invariant socket → stopped socket)
    (receives : ∀ size, Preserves invariant stopped (socketReceive size))
    (responseNew : List UInt8 → Exec Response) (depth : Nat) :
    Preserves invariant stopped (receiveFrame responseNew depth) := by
  apply Preserves.bind (receives 4)
  intro arrived
  apply Preserves.bind (.liftExec stops _)
  intro out
  apply Preserves.bind (receiveBody_preserves stops receives _ depth _)
  intro loop
  rw [finishFrame]
  split
  · apply Preserves.bind (.liftExec stops _)
    intro response
    exact .pure _
  · exact .pure _

theorem collectPieces_preserves
    (stops : ∀ socket, invariant socket → stopped socket)
    (receives : ∀ size, Preserves invariant stopped (socketReceive size))
    (sends : ∀ pieceNum utMetadata, Preserves invariant stopped
      (socketSend (peerMetadataRequestInit pieceNum utMetadata).bytes))
    (around : MetadataSurroundings) (depth : Nat) (utMetadata : Int)
    (remaining piece : Nat) (assembly : Assembly) :
    Preserves invariant stopped
      (collectPieces around depth utMetadata remaining piece assembly) := by
  induction remaining generalizing piece assembly with
  | zero =>
      exact .pure _
  | succ remaining inductionHypothesis =>
      rw [collectPieces]
      apply Preserves.bind (sends piece utMetadata)
      intro code
      cases code with
      | success =>
          apply Preserves.bind (receiveFrame_preserves stops receives _ depth)
          intro received
          cases received with
          | some received =>
              apply Preserves.bind (.liftExec stops _)
              intro after
              exact inductionHypothesis (piece + 1) after
          | none =>
              exact .pure _
      | failure =>
          exact inductionHypothesis (piece + 1) assembly

end Sockets

section Peers

variable {before invariant stopped : Socket → Prop}

/-- A condition on the socket of a peer. -/
def ofSocket (condition : Socket → Prop) (peer : Peer) : Prop :=
  condition peer.socket

theorem onSocket_contract {α : Type} {program : Prog Socket α}
    {after : α → Socket → Prop}
    (contract : Contract before program after stopped) :
    Contract (ofSocket before) (onSocket program)
      (fun value => ofSocket (after value)) (ofSocket stopped) :=
  contract.onPart fun _ _ => rfl

theorem peerExtendedHandshake_contract
    (stops : ∀ socket, invariant socket → stopped socket)
    (receives : ∀ size, Preserves invariant stopped (socketReceive size))
    (sends : Contract before
      (socketSend peerExtendedHandshakeRequestInit.bytes)
      (fun _ => invariant) stopped)
    (around : Surroundings) :
    Contract (ofSocket before) (peerExtendedHandshake around)
      (fun _ => ofSocket invariant) (ofSocket stopped) := by
  have received : Preserves invariant stopped
      (peerExtendedHandshakePacketReceive around) := by
    apply Preserves.bind (receives _)
    intro arrived
    apply Preserves.bind (.liftExec stops _)
    intro out
    split
    · apply Preserves.bind (.liftExec stops _)
      intro response
      exact .pure _
    · exact .pure _
  apply Contract.bind (onSocket_contract sends)
  intro code
  cases code with
  | success =>
      apply Contract.bind (onSocket_contract received)
      intro response
      cases response with
      | some response =>
          dsimp only
          split
          · apply Preserves.bind
            · exact Contract.modifyState fun peer holds => holds
            · intro changed
              exact .pure _
          · exact Contract.pure fun peer holds => holds
      | none =>
          exact Contract.pure fun peer holds => holds
  | failure =>
      exact Contract.pure fun peer holds => holds

theorem peerGetMetadata_preserves
    (stops : ∀ socket, invariant socket → stopped socket)
    (receives : ∀ size, Preserves invariant stopped (socketReceive size))
    (sends : ∀ pieceNum utMetadata, Preserves invariant stopped
      (socketSend (peerMetadataRequestInit pieceNum utMetadata).bytes))
    (around : MetadataSurroundings) (depth : Nat) (metadataSize : Int) :
    Preserves (ofSocket invariant) (ofSocket stopped)
      (peerGetMetadata around depth metadataSize) := by
  have stopsPeer : ∀ peer : Peer, ofSocket invariant peer →
      ofSocket stopped peer :=
    fun peer => stops peer.socket
  have assembled : Preserves (ofSocket invariant) (ofSocket stopped)
      (assembleMetadata around depth metadataSize) := by
    apply Contract.bind .getState
    intro peer
    dsimp only
    split
    · exact Contract.stop fun state holds => stopsPeer state holds.2
    · apply Contract.strengthen _ fun state holds => holds.2
      apply Preserves.bind (onSocket_contract (collectPieces_preserves stops
        receives sends _ _ _ _ _ _))
      intro collected
      exact .pure _
  apply Preserves.bind assembled
  intro answer
  rcases answer with ⟨code, assembly⟩
  cases code with
  | success =>
      apply Preserves.bind (.liftExec stopsPeer _)
      intro files
      exact .pure _
  | failure =>
      exact .pure _

theorem peerGetPiece_contract
    (stops : ∀ socket, invariant socket → stopped socket)
    (receives : ∀ size, Preserves invariant stopped (socketReceive size))
    (sends : Contract before (socketSend peerRequestPieceRequestInit.bytes)
      (fun _ => invariant) stopped)
    (depth : Nat) :
    Contract (ofSocket before) (peerGetPiece depth)
      (fun _ => ofSocket invariant) (ofSocket stopped) := by
  apply Contract.bind (onSocket_contract sends)
  intro code
  cases code with
  | success =>
      apply Contract.bind
        (onSocket_contract (receiveFrame_preserves stops receives _ depth))
      intro received
      cases received with
      | some received =>
          exact Contract.pure fun peer holds => holds
      | none =>
          exact Contract.pure fun peer holds => holds
  | failure =>
      exact Contract.pure fun peer holds => holds

end Peers

end UvgTorrent
