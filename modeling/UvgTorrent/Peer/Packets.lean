import UvgTorrent.Library.CString
import UvgTorrent.Peer.FrameReceive
import UvgTorrent.Surroundings

/-!
# The metadata packet and the piece packet

A request is an array that the fields are stored into one after another.
The response of the metadata packet splits a message at the first `ee`
behind its two id bytes and keeps what follows, in a block of `malloc` whose
other cells hold whatever they held before.
-/

namespace UvgTorrent

open CProgram CText CArray MachineInt NetStream

/-- The bytes of a request, and the stores that missed an array while it was
prepared. -/
structure PacketRequest where
  bytes : List UInt8
  stray : List Nat

/-- `Peer_Metadata_Request_init`. -/
def peerMetadataRequestInit (pieceNum : Nat) (utMetadata : Int) :
    PacketRequest :=
  let message :=
    text "d8:msg_typei0e5:piecei" ++ decimal pieceNum ++ text "ee"
  let bencodedMessage := (Buffer.zeroed 25).storeAll 0 (message ++ [0])
  let bytes := (Buffer.zeroed 31).storeAll 0
    (bigEndian32 (message.length + 2) ++
      [20, toUInt8 utMetadata] ++ message)
  ⟨bytes.cells, bencodedMessage.stray ++ bytes.stray⟩

/-- `Peer_Request_Piece_Request_init`, which uses neither argument. -/
def peerRequestPieceRequestInit : PacketRequest :=
  -- only the length is turned into network order
  let bytes := (Buffer.zeroed 17).storeAll 0
    (bigEndian32 13 ++ [6] ++ littleEndian32 0 ++ littleEndian32 0 ++
      littleEndian32 32)
  ⟨bytes.cells, bytes.stray⟩

structure PeerMetadataResponse where
  response : List UInt8
  responseLen : Int

/-- `result - &bencoded_response[0]` as an `int`; the result of a search
without success is `NULL`. -/
def pointerDifference (around : Surroundings) : Option Nat → Int
  | some position => toInt32 position
  | none => toInt32 (0 - around.address)

/-- `Peer_Metadata_Response_init`, which does not read its last argument. -/
def peerMetadataResponseInit (around : Surroundings)
    (rawResponse : List UInt8) : Exec PeerMetadataResponse := do
  let announced ← slice rawResponse 0 4
  let length := toUInt32 ((bigEndian announced : Int) - 2)
  let body ← slice rawResponse 6 length
  let filled ← (Buffer.zeroed (toUInt32 (length + 1))).copyIn 0 body
  let bencodedResponse := filled.store length 0
  let result ← strstr (text "ee") bencodedResponse.cells
  let msgPos := toInt32 (pointerDifference around result + 2)
  let message ← sliceAt bencodedResponse.cells msgPos
    (toUInt32 (length - msgPos))
  let response ←
    (around.block (toUInt32 (length + 1))).copyIn 0 message
  pure ⟨response.cells, toInt32 length⟩

/-- `Peer_Metadata_Packet_receive`. -/
def peerMetadataPacketReceive (around : Surroundings) (depth : Nat) :
    Prog Socket (Option (Buffer × PeerMetadataResponse)) :=
  receiveFrame (peerMetadataResponseInit around) depth

/-- `Peer_Request_Piece_Response_init`. -/
def peerRequestPieceResponseInit (_rawResponse : List UInt8) : Exec Unit :=
  pure ()

/-- `Peer_Request_Piece_Packet_receive`. -/
def peerRequestPiecePacketReceive (depth : Nat) :
    Prog Socket (Option (Buffer × Unit)) :=
  receiveFrame peerRequestPieceResponseInit depth

/-- Where the copy of a payload starts when the search ends in `NULL`. -/
def nullStart (address : Nat) : Int :=
  toInt32 (toInt32 (0 - address) + 2)

/-- The distance from the array to `NULL` passes for a place in it. -/
def NullInside (address length : Nat) : Prop :=
  0 ≤ nullStart address ∧ nullStart address ≤ length

/-! ## The response of the metadata packet -/

/-- The header of the message ends inside it: the text behind the two id
bytes holds `ee` before any `NUL`. -/
def HoldsHeaderEnd (body : List UInt8) : Prop :=
  text "ee" <:+: (CString.ofBytes (body.drop 2)).bytes

section Response

variable {four body : List UInt8} {out : Buffer}

theorem HoldsFrame.split (frame : HoldsFrame (four ++ body) out) :
    ∃ rest, out.cells = four ++ (body ++ rest) := by
  have split := List.take_append_drop (four ++ body).length out.cells
  rw [frame.start, List.append_assoc] at split
  exact ⟨_, split.symm⟩

theorem prefix_read (frame : HoldsFrame (four ++ body) out)
    (fourLength : four.length = 4) : slice out.cells 0 4 = .ok four := by
  rcases frame.split with ⟨rest, whole⟩
  rw [slice_of_le, whole, List.drop_zero, ← fourLength, List.take_left]
  simp only [whole, List.length_append]
  omega

theorem message_read (frame : HoldsFrame (four ++ body) out)
    (fourLength : four.length = 4) (long : 2 ≤ body.length) :
    slice out.cells 6 (body.drop 2).length = .ok (body.drop 2) := by
  rcases frame.split with ⟨rest, whole⟩
  have behind : out.cells.drop 6 = body.drop 2 ++ rest := by
    rw [whole, List.drop_append, fourLength,
      List.drop_eq_nil_of_le (by omega), List.nil_append,
      List.drop_append_of_le_length long]
  rw [slice_of_le, behind, List.take_left]
  simp only [whole, List.length_append, List.length_drop]
  omega

/-- The text that is searched: the bytes before the first `NUL`, and that
`NUL`. -/
theorem terminated_split (bytes : List UInt8) :
    ∃ rest, bytes ++ [0] = (CString.ofBytes bytes).bytes ++ 0 :: rest := by
  induction bytes with
  | nil =>
      exact ⟨[], rfl⟩
  | cons byte bytes inductionHypothesis =>
      rcases inductionHypothesis with ⟨rest, split⟩
      by_cases isNul : byte = 0
      · exact ⟨bytes ++ [0], by simp [CString.ofBytes, isNul]⟩
      · refine ⟨rest, ?_⟩
        simp only [CString.ofBytes] at split ⊢
        rw [List.takeWhile_cons_of_pos (by simpa using isNul),
          List.cons_append, List.cons_append, split]

theorem terminated_copy (bytes : List UInt8) :
    ∃ filled, (Buffer.zeroed (bytes.length + 1)).copyIn 0 bytes =
        .ok filled ∧
      (filled.store bytes.length 0).cells = bytes ++ [0] := by
  have inside : 0 + bytes.length ≤
      (Buffer.zeroed (bytes.length + 1)).cells.length := by
    simp only [Buffer.zeroed, Buffer.ofCells, List.length_replicate]
    omega
  refine ⟨_, Buffer.copyIn_of_le inside, ?_⟩
  have cells : (Buffer.zeroed (bytes.length + 1)).cells.take 0 ++ bytes ++
      (Buffer.zeroed (bytes.length + 1)).cells.drop (0 + bytes.length) =
        bytes ++ [0] := by
    simp [Buffer.zeroed, Buffer.ofCells]
  rw [cells, Buffer.store_of_lt (by simp)]
  simp

theorem HoldsFrame.body_small (frame : HoldsFrame (four ++ body) out) :
    body.length < 2 ^ 20 := by
  have bufferSize : frameBufferSize = 34816 := rfl
  have fits : (four ++ body).length ≤ out.cells.length := by
    have taken := congrArg List.length frame.start
    rw [List.length_take] at taken
    omega
  rw [frame.size, List.length_append] at fits
  omega

/-- The response from its search on. -/
theorem peerMetadataResponseInit_search
    (frame : HoldsFrame (four ++ body) out) (fourLength : four.length = 4)
    (announced : bigEndian four = body.length) (long : 2 ≤ body.length)
    (around : Surroundings) :
    peerMetadataResponseInit around out.cells = (do
      let result ← strstr (text "ee") (body.drop 2 ++ [0])
      let msgPos := toInt32 (pointerDifference around result + 2)
      let message ← sliceAt (body.drop 2 ++ [0]) msgPos
        (toUInt32 ((body.drop 2).length - msgPos))
      let response ←
        (around.block ((body.drop 2).length + 1)).copyIn 0 message
      pure ⟨response.cells, (body.drop 2).length⟩) := by
  have small := frame.body_small
  have shorter : (body.drop 2).length = body.length - 2 :=
    List.length_drop
  have first := prefix_read frame fourLength
  have second := message_read frame fourLength long
  rcases terminated_copy (body.drop 2) with ⟨filled, copied, terminated⟩
  have length : toUInt32 ((bigEndian four : Int) - 2) =
      (body.drop 2).length := by
    have reading := @toUInt32_of_range ((bigEndian four : Int) - 2)
      (by omega) (by omega)
    omega
  have size : toUInt32 (((body.drop 2).length : Int) + 1) =
      (body.drop 2).length + 1 := by
    have reading := @toUInt32_of_range (((body.drop 2).length : Int) + 1)
      (by omega) (by omega)
    omega
  have kept : toInt32 ((body.drop 2).length : Int) = (body.drop 2).length :=
    toInt32_of_range (by omega) (by omega)
  simp only [peerMetadataResponseInit, first, ok_bind, length, second, size,
    copied, terminated, kept]

theorem endMarker_noNul : 0 ∉ text "ee" := by
  decide

theorem endMarker_nonempty : text "ee" ≠ [] := by
  decide

theorem copy_behind_header (around : Surroundings) {bytes : List UInt8}
    {header : Nat} (small : bytes.length < 2 ^ 20)
    (inside : header ≤ bytes.length) :
    (do
      let message ← sliceAt (bytes ++ [0]) header
        (toUInt32 ((bytes.length : Int) - header))
      let response ← (around.block (bytes.length + 1)).copyIn 0 message
      pure ({ response := response.cells, responseLen := bytes.length } :
        PeerMetadataResponse)) = (.ok {
        response := bytes.drop header ++
          (around.block (bytes.length + 1)).cells.drop
            (bytes.length - header)
        responseLen := bytes.length } : Exec PeerMetadataResponse) := by
  have count : toUInt32 ((bytes.length : Int) - header) =
      bytes.length - header := by
    have reading := @toUInt32_of_range ((bytes.length : Int) - header)
      (by omega) (by omega)
    omega
  have taken : ((bytes ++ [0]).drop header).take (bytes.length - header) =
      bytes.drop header := by
    rw [List.drop_append_of_le_length inside,
      List.take_append_of_le_length (by rw [List.length_drop]),
      List.take_of_length_le (by rw [List.length_drop])]
  have read : sliceAt (bytes ++ [0]) header (bytes.length - header) =
      .ok (bytes.drop header) := by
    rw [sliceAt, if_pos (Int.natCast_nonneg header), Int.toNat_natCast,
      slice_of_le, taken]
    rw [List.length_append, List.length_singleton]
    omega
  have fits : 0 + (bytes.drop header).length ≤
      (around.block (bytes.length + 1)).cells.length := by
    rw [Surroundings.block_length, List.length_drop]
    omega
  simp only [count, read, ok_bind, Buffer.copyIn_of_le fits, pure_exec,
    List.take_zero, List.nil_append, Nat.zero_add, List.length_drop]

/-- A header that ends is split off, and as many cells of the block keep
what they held. -/
theorem peerMetadataResponseInit_found
    (frame : HoldsFrame (four ++ body) out) (fourLength : four.length = 4)
    (announced : bigEndian four = body.length) (long : 2 ≤ body.length)
    (ends : HoldsHeaderEnd body) (around : Surroundings) :
    ∃ header, 2 ≤ header ∧ header ≤ (body.drop 2).length ∧
      peerMetadataResponseInit around out.cells = .ok {
        response := (body.drop 2).drop header ++
          (around.block ((body.drop 2).length + 1)).cells.drop
            ((body.drop 2).length - header)
        responseLen := (body.drop 2).length } := by
  have small := frame.body_small
  have shorter : (body.drop 2).length = body.length - 2 :=
    List.length_drop
  rw [peerMetadataResponseInit_search frame fourLength announced long]
  unfold HoldsHeaderEnd at ends
  generalize body.drop 2 = bytes at *
  rcases terminated_split bytes with ⟨rest, terminated⟩
  rcases strstr_answers endMarker_noNul endMarker_nonempty
    (CString.ofBytes bytes).noNul rest with
    ⟨before, after, split, found⟩ | ⟨absent, _⟩
  · have marker : (text "ee").length = 2 := by decide
    have inside : before.length + 2 ≤ bytes.length := by
      have whole := CString.ofBytes_length_le bytes
      rw [split, List.length_append, List.length_append, marker] at whole
      omega
    have position : toInt32 (pointerDifference around (some before.length)
        + 2) = ((before.length + 2 : Nat) : Int) := by
      have near : toInt32 before.length = before.length :=
        toInt32_of_range (by omega) (by omega)
      rw [pointerDifference, near, toInt32_of_range (by omega) (by omega)]
      omega
    refine ⟨before.length + 2, by omega, inside, ?_⟩
    rw [terminated, found, ok_bind, ← terminated, position]
    exact copy_behind_header around (by omega) inside
  · exact absurd ends absent

/-- Without the end of a header the copy starts at the distance to
`NULL`. -/
theorem peerMetadataResponseInit_null
    (frame : HoldsFrame (four ++ body) out) (fourLength : four.length = 4)
    (announced : bigEndian four = body.length) (long : 2 ≤ body.length)
    (missing : ¬ HoldsHeaderEnd body) (around : Surroundings) :
    peerMetadataResponseInit around out.cells = (do
      let message ← sliceAt (body.drop 2 ++ [0]) (nullStart around.address)
        (toUInt32 ((body.drop 2).length - nullStart around.address))
      let response ←
        (around.block ((body.drop 2).length + 1)).copyIn 0 message
      pure ⟨response.cells, (body.drop 2).length⟩) := by
  rw [peerMetadataResponseInit_search frame fourLength announced long]
  unfold HoldsHeaderEnd at missing
  generalize body.drop 2 = bytes at *
  rcases terminated_split bytes with ⟨rest, terminated⟩
  rcases strstr_answers endMarker_noNul endMarker_nonempty
    (CString.ofBytes bytes).noNul rest with
    ⟨before, after, split, _⟩ | ⟨_, absent⟩
  · exact absurd ⟨before, after, split.symm⟩ missing
  · have start : toInt32 (pointerDifference around none + 2) =
        nullStart around.address :=
      rfl
    rw [terminated, absent, ok_bind, ← terminated, start]

theorem copy_outside {bytes : List UInt8} {start : Int}
    (small : bytes.length < 2 ^ 20) (notLarge : start < 2 ^ 31)
    (outside : ¬ (0 ≤ start ∧ start ≤ bytes.length)) :
    sliceAt (bytes ++ [0]) start
      (toUInt32 ((bytes.length : Int) - start)) = .error .readPast := by
  by_cases inFront : 0 ≤ start
  · rw [sliceAt, if_pos inFront]
    apply slice_of_lt
    rw [List.length_append, List.length_singleton, toUInt32]
    omega
  · rw [sliceAt, if_neg inFront]

/-- A start that is not in the array is a read outside it. -/
theorem peerMetadataResponseInit_missing
    (frame : HoldsFrame (four ++ body) out) (fourLength : four.length = 4)
    (announced : bigEndian four = body.length) (long : 2 ≤ body.length)
    (missing : ¬ HoldsHeaderEnd body) (around : Surroundings)
    (outside : ¬ NullInside around.address (body.drop 2).length) :
    peerMetadataResponseInit around out.cells = .error .readPast := by
  have small := frame.body_small
  have shorter : (body.drop 2).length = body.length - 2 :=
    List.length_drop
  have past := @copy_outside (body.drop 2) (nullStart around.address)
    (by omega) (toInt32_upper _) outside
  rw [peerMetadataResponseInit_null frame fourLength announced long missing,
    past, error_bind]

/-- And from a start in the array the rest of it is copied. -/
theorem peerMetadataResponseInit_nullInside
    (frame : HoldsFrame (four ++ body) out) (fourLength : four.length = 4)
    (announced : bigEndian four = body.length) (long : 2 ≤ body.length)
    (missing : ¬ HoldsHeaderEnd body) (around : Surroundings)
    (inside : NullInside around.address (body.drop 2).length) :
    ∃ response,
      peerMetadataResponseInit around out.cells = .ok response := by
  have small := frame.body_small
  have shorter : (body.drop 2).length = body.length - 2 :=
    List.length_drop
  obtain ⟨header, same⟩ := Int.eq_ofNat_of_zero_le inside.1
  have within : header ≤ (body.drop 2).length := by
    have upper := inside.2
    omega
  rw [peerMetadataResponseInit_null frame fourLength announced long missing,
    same]
  exact ⟨_, copy_behind_header around (by omega) within⟩

/-- From this address the start lies in front of the array. -/
theorem not_nullInside_three (length : Nat) : ¬ NullInside 3 length := by
  intro inside
  have start : nullStart 3 = -1 := by
    decide
  have lower := inside.1
  rw [start] at lower
  cases lower

/-- The length of a message of one byte wraps, and the copy leaves the
array. -/
theorem peerMetadataResponseInit_tiny
    (frame : HoldsFrame (four ++ body) out) (fourLength : four.length = 4)
    (announced : bigEndian four = 1) (around : Surroundings) :
    peerMetadataResponseInit around out.cells = .error .readPast := by
  have bufferSize : frameBufferSize = 34816 := rfl
  have size := frame.size
  have length : toUInt32 ((bigEndian four : Int) - 2) = 2 ^ 32 - 1 := by
    rw [announced]
    decide
  have outside : out.cells.length < 6 + (2 ^ 32 - 1) := by
    omega
  simp only [peerMetadataResponseInit, prefix_read frame fourLength, ok_bind,
    length, slice_of_lt outside, error_bind]

end Response

end UvgTorrent
