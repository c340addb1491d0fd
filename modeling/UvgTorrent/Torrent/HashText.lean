import UvgTorrent.Library.ByteOrder
import UvgTorrent.Peer.ExtendedHandshake
import UvgTorrent.Utils.Split

/-!
# The info hash as text

`torrent->hash` is the text behind `xt=`.  Its third piece goes to the
tracker and to the peers, and both packets turn it into twenty bytes with
`sscanf`.
-/

namespace UvgTorrent

open CProgram CText CArray MachineInt

/-- The digits of a field of at most two characters. -/
def hexField (field : List UInt8) : Option UInt8 :=
  match field.takeWhile isHexDigit with
  | [] => none
  | digits => some (digits.foldl
      (fun total digit => 16 * total + hexValue digit) 0)

/-- What `sscanf` stores for `%2hhx`, if anything.  A sign counts among the
two characters. -/
def sscanfHexPair (string : List UInt8) : Option UInt8 :=
  let (sign, digits) := readSign ((string.dropWhile isSpace).take 2)
  (hexField digits).map fun value => toUInt8 (sign * value.toNat)

/-- The loop over `info_hash_bytes` from an index on. -/
def scanPairs (around : Surroundings) (infoHash : List UInt8) :
    Nat → Nat → Exec (List UInt8)
  | 0, _ => pure []
  | remaining + 1, count => do
      let string ← readString (infoHash.drop (2 * count))
      let byte :=
        (sscanfHexPair string.bytes).getD (around.junk count)
      let others ← scanPairs around infoHash remaining (count + 1)
      pure (byte :: others)

/-- The local array `info_hash_bytes` behind the loop, which
`Tracker_announce` and `Peer_Handshake_Request_init` have in common. -/
def scanInfoHash (around : Surroundings) (infoHash : List UInt8) :
    Exec (List UInt8) :=
  scanPairs around infoHash 20 0

/-- The piece of `torrent->hash` behind the second colon, as it lies in
memory. -/
def extractInfoHash (hash : CString) : Exec (List UInt8) := do
  let split ← stringSplit hash (ch ':')
  let found ← linkedlistGet split.list 2
  match found with
  | some piece => pure (piece.bytes ++ [0])
  | none => .error .nullPointer

/-- The packet of `Peer_Handshake_Request_init` around the decoded hash. -/
def handshakePacket (infoHashBytes peerId : List UInt8) : PacketRequest :=
  let bytes := (Buffer.zeroed 68).store 0 19
  let bytes := bytes.storeAll 1 (text "BitTorrent protocol" ++ [0])
  let bytes := bytes.storeAll 20 [0, 0, 0, 0, 0, 0x10, 0, 0]
  let bytes := bytes.storeAll 28 infoHashBytes
  let bytes := bytes.storeAll 48 (peerId ++ [0])
  ⟨bytes.cells, bytes.stray⟩

/-- `Peer_Handshake_Request_init` on the text of a hash. -/
def peerHandshakeRequestInitOn (around : Surroundings)
    (infoHash peerId : List UInt8) : Exec PacketRequest := do
  let infoHashBytes ← scanInfoHash around infoHash
  pure (handshakePacket infoHashBytes peerId)

/-! ## Hexadecimal digits -/

/-- The number that hexadecimal digits denote. -/
def hexNumber (digits : List UInt8) : Nat :=
  digits.foldl (fun total digit => 16 * total + (hexValue digit).toNat) 0

section Digits

theorem isSpace_of_isHexDigit (byte : UInt8) :
    isHexDigit byte = true →
      isSpace byte = false ∧ byte ≠ ch '-' ∧ byte ≠ ch '+' := by
  revert byte
  apply forall_byte
  decide +kernel

theorem hexPair_toNat {high low : UInt8} (highHex : isHexDigit high = true)
    (lowHex : isHexDigit low = true) :
    (16 * hexValue high + hexValue low).toNat =
      16 * (hexValue high).toNat + (hexValue low).toNat := by
  have first := hexValue_lt high highHex
  have second := hexValue_lt low lowHex
  have sixteen : (16 : UInt8).toNat = 16 := rfl
  rw [UInt8.toNat_add, UInt8.toNat_mul, sixteen]
  omega

theorem toUInt8_toNat (byte : UInt8) : toUInt8 (1 * byte.toNat) = byte := by
  have bound := byte.toNat_lt
  rw [toUInt8, one_mul]
  apply UInt8.toNat_inj.mp
  rw [UInt8.toNat_ofNat']
  omega

/-- Two digits are read as one byte. -/
theorem sscanfHexPair_digits {high low : UInt8}
    (highHex : isHexDigit high = true) (lowHex : isHexDigit low = true)
    (rest : List UInt8) :
    sscanfHexPair (high :: low :: rest) =
      some (16 * hexValue high + hexValue low) := by
  rcases isSpace_of_isHexDigit high highHex with ⟨noSpace, noMinus, noPlus⟩
  have field : hexField [high, low] =
      some (16 * hexValue high + hexValue low) := by
    rw [hexField, List.takeWhile_cons_of_pos highHex,
      List.takeWhile_cons_of_pos lowHex, List.takeWhile_nil]
    simp [List.foldl_cons]
  rw [sscanfHexPair, List.dropWhile_cons_of_neg (by simpa using noSpace)]
  simp only [List.take_succ_cons, List.take_zero, readSign, if_neg noMinus,
    if_neg noPlus, field, Option.map_some]
  rw [toUInt8_toNat]

theorem hexNumber_foldl (digits : List UInt8) (total : Nat) :
    digits.foldl (fun total digit => 16 * total + (hexValue digit).toNat)
        total =
      total * 16 ^ digits.length + hexNumber digits := by
  induction digits generalizing total with
  | nil =>
      simp [hexNumber]
  | cons digit rest inductionHypothesis =>
      rw [hexNumber, List.foldl_cons, List.foldl_cons, inductionHypothesis,
        inductionHypothesis (16 * 0 + _), List.length_cons, Nat.pow_succ]
      ring

theorem hexNumber_pair (high low : UInt8) (rest : List UInt8) :
    hexNumber (high :: low :: rest) =
      (16 * (hexValue high).toNat + (hexValue low).toNat) *
        16 ^ rest.length + hexNumber rest :=
  (hexNumber_foldl rest (16 * (16 * 0 + (hexValue high).toNat) +
    (hexValue low).toNat)).trans (by rw [Nat.mul_zero, Nat.zero_add])

/-- The decoded bytes stand for the number of the digits. -/
theorem bigEndian_decodeHex {digits : List UInt8}
    (hex : ∀ digit ∈ digits, isHexDigit digit = true)
    (even : 2 ∣ digits.length) :
    bigEndian (decodeHex digits) = hexNumber digits := by
  induction digits using decodeHex.induct with
  | case1 high low rest inductionHypothesis =>
      have highHex := hex high List.mem_cons_self
      have lowHex := hex low
        (List.mem_cons_of_mem high List.mem_cons_self)
      have further := inductionHypothesis
        (fun digit member => hex digit
          (List.mem_cons_of_mem high (List.mem_cons_of_mem low member)))
        (by rw [List.length_cons, List.length_cons] at even; omega)
      have front : bigEndian [16 * hexValue high + hexValue low] =
          16 * (hexValue high).toNat + (hexValue low).toNat := by
        simp [bigEndian, hexPair_toNat highHex lowHex]
      have split := bigEndian_append [16 * hexValue high + hexValue low]
        (decodeHex rest)
      have half : (decodeHex rest).length * 2 = rest.length := by
        rw [decodeHex_length]
        rw [List.length_cons, List.length_cons] at even
        omega
      rw [List.singleton_append, front, further] at split
      have powers : 256 ^ (decodeHex rest).length = 16 ^ rest.length := by
        rw [← half, Nat.mul_comm, Nat.pow_mul]
      rw [decodeHex, split, powers, hexNumber_pair]
  | case2 digits short =>
      rcases digits with _ | ⟨high, _ | ⟨low, rest⟩⟩
      · rfl
      · simp at even
      · exact absurd rfl (short high low rest)

/-- The bytes of a hash are those of its number, in network order. -/
theorem decodeHex_eq_networkBytes (infoHash : InfoHash) :
    decodeHex infoHash.digits =
      networkBytes 20 (hexNumber infoHash.digits) := by
  have length : (decodeHex infoHash.digits).length = 20 := by
    rw [decodeHex_length, infoHash.length]
  have number := bigEndian_decodeHex infoHash.hex
    (by rw [infoHash.length]; decide)
  have bytes := networkBytes_bigEndian (decodeHex infoHash.digits)
  rw [length, number] at bytes
  exact bytes.symm

end Digits

/-! ## A hash of forty digits -/

section Hash

theorem hexDigits_noNul {digits : List UInt8}
    (hex : ∀ digit ∈ digits, isHexDigit digit = true) : 0 ∉ digits := by
  intro member
  exact absurd (hex 0 member) (by decide)

theorem scanPairs_length {around : Surroundings}
    {infoHash bytes : List UInt8} {remaining count : Nat}
    (scanned : scanPairs around infoHash remaining count = .ok bytes) :
    bytes.length = remaining := by
  induction remaining generalizing bytes count with
  | zero =>
      cases scanned
      rfl
  | succ remaining inductionHypothesis =>
      rw [scanPairs] at scanned
      rcases (bind_eq_ok_iff _ _ _).mp scanned with ⟨string, _, further⟩
      rcases (bind_eq_ok_iff _ _ _).mp further with ⟨others, rest, last⟩
      cases last
      exact congrArg (· + 1) (inductionHypothesis rest)

theorem scanPairs_digits (around : Surroundings) {infoHash rest : List UInt8}
    {digits : List UInt8} {remaining count : Nat}
    (left : infoHash.drop (2 * count) = digits ++ 0 :: rest)
    (length : digits.length = 2 * remaining)
    (hex : ∀ digit ∈ digits, isHexDigit digit = true) :
    scanPairs around infoHash remaining count = .ok (decodeHex digits) := by
  induction remaining generalizing digits count with
  | zero =>
      have empty := List.length_eq_zero_iff.mp length
      rw [empty]
      rfl
  | succ remaining inductionHypothesis =>
      rcases digits with _ | ⟨high, _ | ⟨low, digits⟩⟩
      · cases length
      · simp at length
        omega
      · have read := readString_stored
          ⟨high :: low :: digits, hexDigits_noNul hex⟩ rest
        have highHex := hex high List.mem_cons_self
        have lowHex := hex low
          (List.mem_cons_of_mem high List.mem_cons_self)
        have behind : infoHash.drop (2 * (count + 1)) =
            digits ++ 0 :: rest := by
          have twoMore : 2 * (count + 1) = 2 * count + 2 := by
            omega
          rw [twoMore, ← List.drop_drop, left]
          rfl
        have further := inductionHypothesis behind
          (by simp only [List.length_cons] at length; omega)
          (fun digit member => hex digit
            (List.mem_cons_of_mem high (List.mem_cons_of_mem low member)))
        rw [scanPairs, left, read, ok_bind,
          sscanfHexPair_digits highHex lowHex, further]
        rfl

theorem scanInfoHash_digits (around : Surroundings) (infoHash : InfoHash) :
    scanInfoHash around (infoHash.digits ++ [0]) =
      .ok (decodeHex infoHash.digits) :=
  scanPairs_digits around rfl infoHash.length infoHash.hex

/-- On the text of a hash the request is the one built from its digits. -/
theorem peerHandshakeRequestInitOn_digits (around : Surroundings)
    (infoHash : InfoHash) (peerId : List UInt8) :
    peerHandshakeRequestInitOn around (infoHash.digits ++ [0]) peerId =
      .ok (peerHandshakeRequestInit infoHash peerId) := by
  rw [peerHandshakeRequestInitOn, scanInfoHash_digits, ok_bind]
  rfl

/-- A digest as a string. -/
def InfoHash.string (infoHash : InfoHash) : CString :=
  ⟨infoHash.digits, hexDigits_noNul infoHash.hex⟩

/-- The pieces of a magnet's `xt` for a hash. -/
def urnPieces (infoHash : InfoHash) : List CString :=
  [⟨text "urn", by decide⟩, ⟨text "btih", by decide⟩, infoHash.string]

/-- The `xt` of a magnet for a hash. -/
def urnOf (infoHash : InfoHash) : CString where
  bytes := text "urn:btih:" ++ infoHash.digits
  noNul := by
    intro member
    rcases List.mem_append.mp member with front | digit
    · exact absurd front (by decide)
    · exact hexDigits_noNul infoHash.hex digit

theorem urnPieces_fit (infoHash : InfoHash) :
    ∀ piece ∈ urnPieces infoHash, PieceFits piece := by
  intro piece member
  simp only [urnPieces, List.mem_cons, List.not_mem_nil, or_false] at member
  rcases member with rfl | rfl | rfl
  · exact ⟨by decide, by decide⟩
  · exact ⟨by decide, by decide⟩
  · refine ⟨fun colon => ?_, ?_⟩
    · exact absurd (infoHash.hex _ colon) (by decide)
    · rw [InfoHash.string, infoHash.length]
      decide

/-- The piece behind the second colon is the text of the hash. -/
theorem extractInfoHash_urn (infoHash : InfoHash) :
    extractInfoHash (urnOf infoHash) = .ok (infoHash.digits ++ [0]) := by
  have small : (urnOf infoHash).strlen < 2 ^ 31 := by
    rw [CString.strlen, urnOf, List.length_append, infoHash.length]
    decide
  rcases @stringSplit_joined (urnOf infoHash) (urnPieces infoHash) rfl
    (by simp [urnPieces]) (urnPieces_fit infoHash) small (ch ':') with
    ⟨scan, split, _, list⟩
  rw [extractInfoHash, split, ok_bind, list]
  rfl

end Hash

end UvgTorrent
