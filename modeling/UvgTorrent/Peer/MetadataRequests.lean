import UvgTorrent.Peer.RequestedPieces

/-!
# The frame of a request

`Peer_Metadata_Request_init` prints its text into an array that no request
fits in, and then fills an array that the pieces of one digit fit in.
-/

namespace UvgTorrent

open CProgram CText CArray MachineInt NetStream

/-- The dictionary of a request. -/
def requestText (pieceNum : Nat) : List UInt8 :=
  text "d8:msg_typei0e5:piecei" ++ decimal pieceNum ++ text "ee"

/-- A request as the peer expects it. -/
def requestFrame (pieceNum : Nat) (utMetadata : Int) : List UInt8 :=
  bigEndian32 (2 + (requestText pieceNum).length) ++
    [20, toUInt8 utMetadata] ++ requestText pieceNum

/-- `Peer_Metadata_Packet_send`. -/
def peerMetadataPacketSend (pieceNum : Nat) (utMetadata : Int) :
    Prog Socket ExitCode :=
  socketSend (peerMetadataRequestInit pieceNum utMetadata).bytes

/-- The call sends the frame of the request, on every socket. -/
def Transmits (pieceNum : Nat) (utMetadata : Int) : Prop :=
  ∀ socket : Socket,
    messagesSent
        ((peerMetadataPacketSend pieceNum utMetadata).from socket).2.log =
      messagesSent socket.log ++ [requestFrame pieceNum utMetadata]

/-- The request is prepared inside its arrays, and sent as it should be. -/
structure WellFramed (pieceNum : Nat) (utMetadata : Int) : Prop where
  inside : (peerMetadataRequestInit pieceNum utMetadata).stray = []
  transmits : Transmits pieceNum utMetadata

section Request

variable (pieceNum : Nat) (utMetadata : Int)

theorem requestText_length :
    (requestText pieceNum).length = 24 + (decimal pieceNum).length := by
  have front : (text "d8:msg_typei0e5:piecei").length = 22 := by
    decide
  have back : (text "ee").length = 2 := by
    decide
  rw [requestText, List.length_append, List.length_append, front, back]
  omega

/-- The prefix counts the bytes behind it. -/
theorem requestFrame_length :
    (requestFrame pieceNum utMetadata).length =
      4 + (2 + (requestText pieceNum).length) := by
  have four : (bigEndian32 (2 + (requestText pieceNum).length)).length = 4 :=
    rfl
  rw [requestFrame, List.length_append, List.length_append, four,
    List.length_cons, List.length_singleton]
  omega

theorem peerMetadataRequestInit_eq :
    peerMetadataRequestInit pieceNum utMetadata =
      ⟨((Buffer.zeroed 31).storeAll 0
          (requestFrame pieceNum utMetadata)).cells,
        ((Buffer.zeroed 25).storeAll 0 (requestText pieceNum ++ [0])).stray ++
          ((Buffer.zeroed 31).storeAll 0
            (requestFrame pieceNum utMetadata)).stray⟩ := by
  rw [requestFrame, Nat.add_comm 2]
  rfl

theorem peerMetadataPacketSend_messages (socket : Socket) :
    messagesSent
        ((peerMetadataPacketSend pieceNum utMetadata).from socket).2.log =
      messagesSent socket.log ++
        [(peerMetadataRequestInit pieceNum utMetadata).bytes] :=
  Contract.ends (socketSend_hasSent _) rfl

/-- The text of a request and its terminator never fit. -/
theorem requestText_strays :
    ((Buffer.zeroed 25).storeAll 0 (requestText pieceNum ++ [0])).stray ≠
      [] := by
  have digits := List.length_pos_iff.mpr (decimal_nonempty pieceNum)
  have size := requestText_length pieceNum
  rw [Ne, Buffer.storeAll_stray_eq_nil_iff rfl (Nat.zero_le _)]
  simp only [List.length_append, List.length_singleton, Buffer.zeroed,
    Buffer.ofCells, List.length_replicate]
  omega

/-- The array holds the frame exactly when the number has one digit. -/
theorem peerMetadataRequestInit_bytes_iff :
    (peerMetadataRequestInit pieceNum utMetadata).bytes =
      requestFrame pieceNum utMetadata ↔ pieceNum < 10 := by
  have digits := List.length_pos_iff.mpr (decimal_nonempty pieceNum)
  have textSize := requestText_length pieceNum
  have frameSize := requestFrame_length pieceNum utMetadata
  have oneDigit := @decimal_length_le_iff pieceNum 1 (by decide)
  have room : (Buffer.zeroed 31).cells.length = 31 :=
    List.length_replicate
  constructor
  · intro same
    have lengths := congrArg List.length same
    rw [peerMetadataRequestInit_length] at lengths
    omega
  · intro small
    have single := oneDigit.mpr small
    have fills : (requestFrame pieceNum utMetadata).length = 31 := by
      omega
    rw [peerMetadataRequestInit_eq,
      Buffer.storeAll_of_le (by omega)]
    simp only [List.take_zero, List.nil_append, Nat.zero_add]
    rw [List.drop_eq_nil_of_le (by omega), List.append_nil]

end Request

/-- No request stays inside its arrays, and the pieces below ten are the ones
whose request is sent as it should be. -/
theorem metadataRequest_misframed (pieceNum : Nat) (utMetadata : Int) :
    ¬ WellFramed pieceNum utMetadata ∧
      (Transmits pieceNum utMetadata ↔ pieceNum < 10) := by
  constructor
  · intro framed
    have inside := framed.inside
    rw [peerMetadataRequestInit_eq] at inside
    exact requestText_strays pieceNum (List.append_eq_nil_iff.mp inside).1
  · rw [← peerMetadataRequestInit_bytes_iff pieceNum utMetadata]
    constructor
    · intro transmits
      have sent := transmits (replyingPeer []).socket
      rw [peerMetadataPacketSend_messages] at sent
      exact List.singleton_inj.mp (List.append_cancel_left sent)
    · intro same socket
      rw [peerMetadataPacketSend_messages, same]

/-- The terminator of the first request lies behind its array. -/
theorem firstRequest_strays :
    (peerMetadataRequestInit 0 3).stray = [25] ∧ ¬ WellFramed 0 3 := by
  have strays : (peerMetadataRequestInit 0 3).stray = [25] := by
    decide +kernel
  refine ⟨strays, fun framed => ?_⟩
  cases strays.symm.trans framed.inside

end UvgTorrent
