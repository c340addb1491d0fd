import UvgTorrent.Peer.CollectedReplies
import UvgTorrent.Peer.Conversation
import UvgTorrent.Peer.HandshakeParameters
import UvgTorrent.Peer.MetadataBounds

/-!
# The pieces that are requested

`Peer_get_metadata` requests as many pieces as the handshake counts, and the
handshake counts the whole ones only.
-/

namespace UvgTorrent

open CProgram CText CArray MachineInt NetStream

/-- The requests for a number of pieces, from one piece on. -/
def pieceRequests (utMetadata : Int) (piece count : Nat) :
    List (List UInt8) :=
  (List.range' piece count).map fun pieceNum =>
    (peerMetadataRequestInit pieceNum utMetadata).bytes

/-- These messages have been sent so far. -/
def HasSent (messages : List (List UInt8)) (socket : Socket) : Prop :=
  messagesSent socket.log = messages

/-- Behind these messages no more pieces than that have been requested, in
their order. -/
def HasRequested (messages : List (List UInt8)) (utMetadata : Int)
    (piece most : Nat) (socket : Socket) : Prop :=
  ∃ count ≤ most,
    HasSent (messages ++ pieceRequests utMetadata piece count) socket

section Messages

variable {messages : List (List UInt8)} {around : MetadataSurroundings}
  {depth : Nat} {utMetadata : Int}

theorem socketSend_hasSent (message : List UInt8) :
    Contract (HasSent messages) (socketSend message)
      (fun _ => HasSent (messages ++ [message]))
      (HasSent (messages ++ [message])) := by
  intro socket same
  have logged : messagesSent (socket.log ++
      [.send socket.sockDesc message]) = messages ++ [message] := by
    rw [messagesSent_append, same]
    rfl
  cases isOpen : socket.sockDesc with
  | none =>
      rw [isOpen] at logged
      simp only [socketSend, bind_from, getState_from, setState_from, isOpen,
        liftExec_from]
      exact logged
  | some fd =>
      rw [isOpen] at logged
      rw [socketSend_from isOpen]
      exact logged

theorem pieceRequests_succ (piece count : Nat) :
    pieceRequests utMetadata piece (count + 1) =
      (peerMetadataRequestInit piece utMetadata).bytes ::
        pieceRequests utMetadata (piece + 1) count := by
  simp only [pieceRequests, List.range'_succ, List.map_cons]

/-- The requests behind the first one. -/
theorem HasRequested.behind {piece most : Nat} {socket : Socket}
    (requested : HasRequested
      (messages ++ [(peerMetadataRequestInit piece utMetadata).bytes])
      utMetadata (piece + 1) most socket) :
    HasRequested messages utMetadata piece (most + 1) socket := by
  rcases requested with ⟨count, within, sent⟩
  refine ⟨count + 1, Nat.succ_le_succ within, ?_⟩
  rwa [pieceRequests_succ, ← List.singleton_append, ← List.append_assoc]

end Messages

/-! ## The pieces of one peer -/

section Collected

variable {around : MetadataSurroundings} {depth : Nat} {assembly : Assembly}
  {greeted : Peer} {size extension : Int}

theorem Greeted.pieces {peer : Peer} {size extension : Int}
    (greets : Greeted peer size extension greeted)
    (positive : 1 ≤ greeted.metadataSize) :
    greeted.numPieces = greeted.metadataSize / 16384 := by
  rw [greets.numPieces, ← greets.metadataSize]
  exact Int.tdiv_eq_ediv_of_nonneg (by omega)

end Collected

end UvgTorrent
