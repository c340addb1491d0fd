import UvgTorrent.Peer.Handshake

/-!
# The extended handshake

The reply is searched for two keys, and the digits behind each are read with
`atoi`.  The search for a key that is not there ends in `NULL`, whose
distance to the array decides whether the key counts as found.
-/

namespace UvgTorrent

open CProgram CText CArray MachineInt

/-- `Peer_Extended_Handshake_Request_init`. -/
def peerExtendedHandshakeRequestInit : PacketRequest :=
  let message := text "d1:md11:ut_metadatai1eee"
  let bytes := (Buffer.zeroed 30).storeAll 0
    (bigEndian32 (message.length + 2) ++ [20, 0] ++ message)
  ⟨bytes.cells, bytes.stray⟩

def isSpace (byte : UInt8) : Bool :=
  byte == ch ' ' || (9 ≤ byte && byte ≤ 13)

/-- The sign that `atoi` reads, and the text behind it. -/
def readSign : List UInt8 → Int × List UInt8
  | byte :: rest =>
      if byte = ch '-' then (-1, rest)
      else if byte = ch '+' then (1, rest)
      else (1, byte :: rest)
  | [] => (1, [])

theorem readSign_digit {digit : UInt8} (isOne : isDigit digit = true)
    (rest : List UInt8) :
    readSign (digit :: rest) = (1, digit :: rest) := by
  have noMinus : digit ≠ ch '-' := by
    rintro rfl
    exact absurd isOne (by decide)
  have noPlus : digit ≠ ch '+' := by
    rintro rfl
    exact absurd isOne (by decide)
  rw [readSign, if_neg noMinus, if_neg noPlus]

/-- `atoi` on an array.  The number is read as a `long`, and digits up to the
end of the array are read past it. -/
def atoi (buffer : List UInt8) : Exec Int :=
  let (sign, digits) := readSign (buffer.dropWhile isSpace)
  let run := digits.takeWhile isDigit
  if run.length < digits.length then
    .ok (toInt32 (sign * run.foldl
      (fun total digit => total * 10 + digitValue digit) 0))
  else
    .error .readPast

/-- The copy of at most ten characters up to an `e`, which becomes a
terminator.  Cells behind it are not written. -/
def copyNumber (memory : List UInt8) (position : Int) :
    Nat → Exec (List UInt8)
  | 0 => pure []
  | remaining + 1 => do
      let found ← sliceAt memory position 1
      match found with
      | byte :: _ =>
          if byte ≠ ch 'e' then
            let rest ← copyNumber memory (position + 1) remaining
            pure (byte :: rest)
          else
            pure [0]
      | [] => .error .readPast

/-- The number behind a key, or `none` when the key does not count as
found.  `address` is that of `raw_response[6]`. -/
def scanNumber (address : Nat) (key rawResponse : List UInt8)
    (resSize : Int) : Exec (Option Int) := do
  let found ← strstr key (rawResponse.drop 6)
  let position :=
    match found with
    | some position => toInt32 position
    | none => toInt32 (0 - address)
  if position < resSize then
    let buffer ← copyNumber rawResponse (6 + position + key.length) 10
    let number ← atoi buffer
    pure (some number)
  else
    pure none

structure PeerExtendedHandshakeResponse where
  metadataSize : Int
  pieceSize : Int
  numPieces : Int
  utMetadata : Int

/-- `Peer_Extended_Handshake_Response_init`.  The piece fields are written
only with a size, and nothing reads them without one. -/
def peerExtendedHandshakeResponseInit (address : Nat)
    (rawResponse : List UInt8) (resSize : Int) :
    Exec PeerExtendedHandshakeResponse := do
  let size ← scanNumber address (text "metadata_sizei") rawResponse resSize
  let metadataSize := size.getD 0
  let pieceSize := 16 * 1024
  let numPieces := metadataSize.tdiv pieceSize
  let extension ← scanNumber address (text "ut_metadatai") rawResponse resSize
  pure ⟨metadataSize, pieceSize, numPieces, extension.getD 0⟩

/-- `Peer_Extended_Handshake_Packet_receive`; `none` is `EXIT_FAILURE`. -/
def peerExtendedHandshakePacketReceive (around : Surroundings) :
    Prog Socket (Option PeerExtendedHandshakeResponse) := do
  let arrived ← socketReceive replyBufferSize
  let out ← liftExec
    ((around.block replyBufferSize).copyIn 0 (arrived.getD []))
  if 0 < recvCount arrived then
    let response ← liftExec (peerExtendedHandshakeResponseInit
      around.address out.cells (recvCount arrived))
    pure (some response)
  else
    pure none

/-- `Peer_extended_handshake`. -/
def peerExtendedHandshake (around : Surroundings) : Prog Peer ExitCode := do
  let extendedHandshake := peerExtendedHandshakeRequestInit
  match ← onSocket (socketSend extendedHandshake.bytes) with
  | .success =>
      match ← onSocket (peerExtendedHandshakePacketReceive around) with
      | some response =>
          if response.metadataSize ≠ 0 then
            modifyState fun peer => { peer with
              utMetadata := response.utMetadata
              metadataSize := response.metadataSize
              numPieces := response.numPieces
              pieceSize := response.pieceSize }
            pure .success
          else
            pure .failure
      | none => pure .failure
  | .failure => pure .failure

end UvgTorrent
