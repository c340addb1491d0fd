import UvgTorrent.Library.Search
import UvgTorrent.Peer.HandshakeParameters

/-!
# The payload of a response

`Peer_Metadata_Response_init` splits a data message where its header ends.
The length that it reports is the one of the header and the payload.
-/

namespace UvgTorrent

open CProgram CText CArray MachineInt NetStream

/-- The dictionary in front of a payload. -/
def dataHeader (pieceNum totalSize : Nat) : List UInt8 :=
  text "d8:msg_typei1e5:piecei" ++ decimal pieceNum ++
    (text "e10:total_sizei" ++ decimal totalSize ++ text "ee")

/-- A data message and its length prefix. -/
def dataFrame (extension : UInt8) (header payload : List UInt8) :
    List UInt8 :=
  bigEndian32 (2 + header.length + payload.length) ++
    ([20, extension] ++ (header ++ payload))

/-- The response holds the payload, and reports its length. -/
def YieldsPayload (around : Surroundings)
    (rawResponse payload : List UInt8) : Prop :=
  ∃ response, peerMetadataResponseInit around rawResponse = .ok response ∧
    response.responseLen = payload.length ∧
    response.response.take payload.length = payload

section Header

/-- The header up to its last two bytes. -/
def headerFields (pieceNum totalSize : Nat) : List UInt8 :=
  text "d8:msg_typei1e5:piecei" ++ decimal pieceNum ++
    (text "e10:total_sizei" ++ decimal totalSize)

variable {pieceNum totalSize : Nat}

theorem dataHeader_eq (pieceNum totalSize : Nat) :
    dataHeader pieceNum totalSize =
      headerFields pieceNum totalSize ++ text "ee" := by
  simp only [dataHeader, headerFields, List.append_assoc]

theorem decimal_free {value : Nat} {byte : UInt8}
    (notDigit : isDigit byte = false) : byte ∉ decimal value := by
  intro member
  cases (decimal_isDigit member).symm.trans notDigit

theorem decimal_apart (value : Nat) : Apart (ch 'e') (decimal value) :=
  apart_of_notMem (decimal_free (by decide))

theorem decimal_last (value : Nat) :
    ∀ last ∈ (decimal value).getLast?, last ≠ ch 'e' := by
  intro last isLast same
  have member := List.mem_of_getLast? isLast
  exact decimal_free (by decide) (same ▸ member)

theorem headerFields_apart (pieceNum totalSize : Nat) :
    Apart (ch 'e') (headerFields pieceNum totalSize ++ [ch 'e']) := by
  have front : Apart (ch 'e') (text "d8:msg_typei1e5:piecei") := by
    decide +kernel
  have middle : Apart (ch 'e') (text "e10:total_sizei") := by
    decide +kernel
  have last : Apart (ch 'e') [ch 'e'] := .singleton _
  rw [headerFields, List.append_assoc, List.append_assoc, List.append_assoc]
  apply front.append _ (by decide +kernel)
  apply (decimal_apart pieceNum).append _ (decimal_last pieceNum)
  apply middle.append _ (by decide +kernel)
  exact (decimal_apart totalSize).append last (decimal_last totalSize)

theorem headerFields_noNul (pieceNum totalSize : Nat) :
    0 ∉ headerFields pieceNum totalSize := by
  intro member
  simp only [headerFields, List.mem_append] at member
  rcases member with (front | digits) | (middle | digits)
  · exact absurd front (by decide)
  · exact decimal_free (by decide) digits
  · exact absurd middle (by decide)
  · exact decimal_free (by decide) digits

/-- Whatever the payload holds, the search ends with the header. -/
theorem dataHeader_found (pieceNum totalSize : Nat) (payload : List UInt8) :
    strstr (text "ee") (dataHeader pieceNum totalSize ++ payload) =
      .ok (some (headerFields pieceNum totalSize).length) := by
  apply (strstr_eq_some_iff endMarker_nonempty).mpr
  rw [dataHeader_eq, List.append_assoc]
  exact firstAt_pair (headerFields_apart pieceNum totalSize)
    (headerFields_noNul pieceNum totalSize) payload

theorem dataHeader_length (pieceNum totalSize : Nat) :
    (dataHeader pieceNum totalSize).length =
      (headerFields pieceNum totalSize).length + 2 := by
  rw [dataHeader_eq, List.length_append]
  rfl

end Header

section Payload

variable {around : Surroundings} {extension : UInt8}
  {header payload : List UInt8} {pieceNum totalSize : Nat}

/-- The payload of a data message is copied from its first byte on, and as
many cells behind it as the header has bytes are counted in. -/
theorem peerMetadataResponseInit_data {out : Buffer}
    (frame : HoldsFrame (dataFrame extension
      (dataHeader pieceNum totalSize) payload) out)
    (around : Surroundings) :
    ∃ stale, peerMetadataResponseInit around out.cells = .ok {
      response := payload ++ stale
      responseLen := (dataHeader pieceNum totalSize ++ payload).length } := by
  have small := frame.body_small
  have size : ([20, extension] ++ (dataHeader pieceNum totalSize ++
      payload)).length =
        2 + (dataHeader pieceNum totalSize).length + payload.length := by
    simp only [List.length_append, List.length_cons, List.length_nil]
    omega
  have announced := @bigEndian_bigEndian32
    (2 + (dataHeader pieceNum totalSize).length + payload.length) (by omega)
  have ends := dataHeader_length pieceNum totalSize
  have whole : (dataHeader pieceNum totalSize ++ payload).length =
      (dataHeader pieceNum totalSize).length + payload.length :=
    List.length_append
  have position : toInt32 (pointerDifference around
      (some (headerFields pieceNum totalSize).length) + 2) =
        (dataHeader pieceNum totalSize).length := by
    have near : toInt32 (headerFields pieceNum totalSize).length =
        (headerFields pieceNum totalSize).length :=
      toInt32_of_range (by omega) (by omega)
    rw [pointerDifference, near, toInt32_of_range (by omega) (by omega)]
    omega
  have searched := peerMetadataResponseInit_search frame rfl
    (by rw [announced, size]) (by rw [size]; omega) around
  have behind : ([20, extension] ++ (dataHeader pieceNum totalSize ++
      payload)).drop 2 = dataHeader pieceNum totalSize ++ payload :=
    rfl
  rw [searched, behind, List.append_assoc, dataHeader_found, ok_bind,
    position, ← List.append_assoc, copy_behind_header around (by omega)
      (by omega), List.drop_left]
  exact ⟨_, rfl⟩

/-- The length that is reported comes from the prefix alone. -/
theorem peerMetadataResponseInit_responseLen {rawResponse four : List UInt8}
    {response : PeerMetadataResponse}
    (announced : slice rawResponse 0 4 = .ok four)
    (answered : peerMetadataResponseInit around rawResponse =
      .ok response) :
    response.responseLen =
      toInt32 (toUInt32 ((bigEndian four : Int) - 2)) := by
  rw [peerMetadataResponseInit, announced, ok_bind] at answered
  rcases (bind_eq_ok_iff ..).mp answered with ⟨body, _, answered⟩
  rcases (bind_eq_ok_iff ..).mp answered with ⟨filled, _, answered⟩
  rcases (bind_eq_ok_iff ..).mp answered with ⟨result, _, answered⟩
  rcases (bind_eq_ok_iff ..).mp answered with ⟨message, _, answered⟩
  rcases (bind_eq_ok_iff ..).mp answered with ⟨copied, _, answered⟩
  rw [← Except.ok.inj answered]

theorem reported_ne {header payload : Nat} (positive : 0 < header)
    (short : header < 2 ^ 32) :
    toInt32 (toUInt32
      ((bigEndian (bigEndian32 (2 + header + payload)) : Int) - 2)) ≠
        payload := by
  rw [bigEndian32_eq, bigEndian_networkBytes, toInt32, toUInt32,
    Int.bmod_def]
  split <;> omega

theorem dataFrame_announced (extension : UInt8)
    (header payload rest : List UInt8) :
    slice (dataFrame extension header payload ++ rest) 0 4 =
      .ok (bigEndian32 (2 + header.length + payload.length)) := by
  rw [slice_of_le]
  · rfl
  · simp only [dataFrame, List.length_append, bigEndian32_length]
    omega

/-- No payload is reported with its own length. -/
theorem dataFrame_misread (around : Surroundings) (extension : UInt8)
    (payload rest : List UInt8)
    (short : (dataHeader pieceNum totalSize).length < 2 ^ 32) :
    ¬ YieldsPayload around
      (dataFrame extension (dataHeader pieceNum totalSize) payload ++ rest)
      payload := by
  intro yields
  rcases yields with ⟨response, answered, length, _⟩
  have ends := dataHeader_length pieceNum totalSize
  have reported := peerMetadataResponseInit_responseLen
    (dataFrame_announced extension _ payload rest) answered
  rw [length] at reported
  exact reported_ne (by omega) short reported.symm

end Payload

theorem dataFrame_misread_oneByte :
    ¬ YieldsPayload blankSurroundings
      (dataFrame 3 (dataHeader 0 1) [7] ++ []) [7] :=
  dataFrame_misread blankSurroundings 3 [7] [] (by decide)

/-- One byte behind a header of 41 is reported as 42. -/
theorem oneByte_overlong :
    (∃ response, peerMetadataResponseInit blankSurroundings
      (dataFrame 3 (dataHeader 0 1) [7] ++ []) = .ok response ∧
        response.responseLen = 42) ∧
    ¬ YieldsPayload blankSurroundings
      (dataFrame 3 (dataHeader 0 1) [7] ++ []) [7] := by
  have reported : (peerMetadataResponseInit blankSurroundings
      (dataFrame 3 (dataHeader 0 1) [7] ++ [])).map
        PeerMetadataResponse.responseLen = .ok 42 := by
    decide +kernel
  cases answered : peerMetadataResponseInit blankSurroundings
      (dataFrame 3 (dataHeader 0 1) [7] ++ []) with
  | error stop =>
      rw [answered] at reported
      cases reported
  | ok response =>
      rw [answered] at reported
      have length := Except.ok.inj reported
      refine ⟨⟨response, rfl, length⟩, fun yields => ?_⟩
      rcases yields with ⟨other, same, one, _⟩
      cases answered.symm.trans same
      cases length.symm.trans one

end UvgTorrent
