import UvgTorrent.Peer.NumberScan
import UvgTorrent.Tracker.AnnounceRecords

/-!
# Replies and the bytes behind them

Every reply is received into an array of 2048 bytes and decoded in place.
The size of the reply goes to the decoder, but most of what it reads lies at
fixed places, behind a short reply as well.  A decoder is run twice, on
arrays that differ only behind the reply.
-/

namespace UvgTorrent

open CProgram CText CArray MachineInt

/-- The decoders of replies.  The extended handshake also depends on where
its array lies. -/
inductive Decoder where
  | connect
  | announce
  | handshake
  | extendedHandshake (address : Nat)

inductive Decoded where
  | connect (response : TrackerConnectResponse)
  | announce (response : TrackerAnnounceResponse)
  | handshake (response : PeerHandshakeResponse)
  | extendedHandshake (response : PeerExtendedHandshakeResponse)

def Decoder.run (order : ByteOrder) (rawResponse : List UInt8)
    (resSize : Nat) : Decoder → Exec Decoded
  | .connect =>
      (trackerConnectResponseInit order rawResponse).map .connect
  | .announce =>
      (trackerAnnounceResponseInit order rawResponse resSize).map .announce
  | .handshake =>
      (peerHandshakeResponseInit rawResponse).map .handshake
  | .extendedHandshake address =>
      (peerExtendedHandshakeResponseInit address rawResponse resSize).map
        .extendedHandshake

/-- Two runs on arrays that begin with the same reply decode the same. -/
def OnlyReceived (order : ByteOrder) (decoder : Decoder)
    (reply : List UInt8) : Prop :=
  ∀ first second,
    (reply ++ first).length = replyBufferSize →
    (reply ++ second).length = replyBufferSize →
      ∃ decoded,
        decoder.run order (reply ++ first) reply.length = .ok decoded ∧
        decoder.run order (reply ++ second) reply.length = .ok decoded

/-- The reply holds all that its decoder reads. -/
def Decoder.Covered (reply : List UInt8) : Decoder → Prop
  | .connect => 16 ≤ reply.length
  | .announce => 20 ≤ reply.length ∧ PeersSettled (reply.drop 20)
  | .handshake => 68 ≤ reply.length
  | .extendedHandshake address =>
      ∀ key ∈ extendedHandshakeKeys, KeySettled address key reply

section Runs

variable {order : ByteOrder} {decoder : Decoder} {reply : List UInt8}

theorem OnlyReceived.of_constant
    (constant : ∃ decoded, ∀ stale,
      (reply ++ stale).length = replyBufferSize →
        decoder.run order (reply ++ stale) reply.length = .ok decoded) :
    OnlyReceived order decoder reply := by
  rcases constant with ⟨decoded, runs⟩
  intro first second firstTotal secondTotal
  exact ⟨decoded, runs first firstTotal, runs second secondTotal⟩

/-- The runs before zeros and before digits agree, and they tell apart
whatever a decoder reads behind the reply. -/
theorem OnlyReceived.agree (same : OnlyReceived order decoder reply)
    (fits : reply.length ≤ replyBufferSize) :
    decoder.run order (reply ++ filling 0 reply) reply.length =
      decoder.run order (reply ++ filling (ch '5') reply)
        reply.length := by
  rcases same _ _ (filling_total fits 0) (filling_total fits (ch '5')) with
    ⟨decoded, first, second⟩
  rw [first, second]

theorem OnlyReceived.answers (same : OnlyReceived order decoder reply)
    (fits : reply.length ≤ replyBufferSize) :
    ∃ decoded, decoder.run order (reply ++ filling (ch '5') reply)
      reply.length = .ok decoded := by
  rcases same _ _ (filling_total fits 0) (filling_total fits (ch '5')) with
    ⟨decoded, _, second⟩
  exact ⟨decoded, second⟩

theorem filling_getElem? {place : Nat} (behind : reply.length ≤ place)
    (inside : place < replyBufferSize) (filler : UInt8) :
    (reply ++ filling filler reply)[place]? = some filler := by
  rw [List.getElem?_append_right behind, filling, List.getElem?_replicate,
    if_pos (by omega)]

/-- A block that reaches behind the reply is not the same in both runs. -/
theorem filling_block_ne {start count : Nat}
    (short : reply.length ≤ start + count)
    (inside : start + count < replyBufferSize) :
    ((reply ++ filling 0 reply).drop start).take (count + 1) ≠
      ((reply ++ filling (ch '5') reply).drop start).take (count + 1) := by
  intro same
  have last := congrArg (fun block : List UInt8 => block[count]?) same
  simp only [List.getElem?_take_of_lt (Nat.lt_succ_self count),
    List.getElem?_drop, filling_getElem? short inside] at last
  exact absurd last (by decide)

end Runs

/-! ## The decoders one by one -/

section Decoders

variable {order : ByteOrder} {reply : List UInt8}

theorem filled_length (fits : reply.length ≤ replyBufferSize)
    (filler : UInt8) : 68 ≤ (reply ++ filling filler reply).length := by
  rw [filling_total fits]
  decide

theorem connect_covered (covered : Decoder.connect.Covered reply) :
    OnlyReceived order .connect reply := by
  have header : 16 ≤ reply.length := covered
  apply OnlyReceived.of_constant
  refine ⟨.connect (connectFields order reply), fun stale _ => ?_⟩
  have longer : 16 ≤ (reply ++ stale).length := by
    rw [List.length_append]
    omega
  rw [Decoder.run, trackerConnectResponseInit_of_le longer,
    connectFields_append header]
  rfl

theorem connect_uncovered (fits : reply.length ≤ replyBufferSize)
    (same : OnlyReceived order .connect reply) :
    Decoder.connect.Covered reply := by
  by_contra short
  have behind : reply.length ≤ 8 + 7 := by
    have few : ¬ 16 ≤ reply.length := short
    omega
  have zeros := filled_length fits 0
  have digits := filled_length fits (ch '5')
  have agree := same.agree fits
  simp only [Decoder.run] at agree
  rw [trackerConnectResponseInit_of_le (by omega),
    trackerConnectResponseInit_of_le (by omega)] at agree
  have fields := Decoded.connect.inj (Except.ok.inj agree)
  exact filling_block_ne behind (by decide)
    (connectFields_inj (by omega) (by omega) fields)

theorem handshake_read {rawResponse : List UInt8}
    (whole : 68 ≤ rawResponse.length) :
    ∃ pstrlen, rawResponse[0]? = some pstrlen ∧
      peerHandshakeResponseInit rawResponse =
        .ok ⟨pstrlen, (rawResponse.drop 1).take 19,
          (rawResponse.drop 48).take 20⟩ := by
  have some := List.getElem?_eq_getElem
    (Nat.lt_of_lt_of_le (by decide : 0 < 68) whole)
  refine ⟨_, some, ?_⟩
  rw [peerHandshakeResponseInit, (peek_eq_ok_iff _ _ _).mpr some, ok_bind,
    slice_of_le (by omega), ok_bind, slice_of_le (by omega), ok_bind]
  rfl

theorem handshake_covered (covered : Decoder.handshake.Covered reply) :
    OnlyReceived order .handshake reply := by
  have whole : 68 ≤ reply.length := covered
  rcases handshake_read whole with ⟨pstrlen, first, read⟩
  apply OnlyReceived.of_constant
  refine ⟨.handshake ⟨pstrlen, (reply.drop 1).take 19,
    (reply.drop 48).take 20⟩, fun stale _ => ?_⟩
  have longer : 68 ≤ (reply ++ stale).length := by
    rw [List.length_append]
    omega
  rcases handshake_read longer with ⟨other, otherFirst, otherRead⟩
  rw [List.getElem?_append_left (by omega), first] at otherFirst
  cases otherFirst
  rw [Decoder.run, otherRead, List.drop_append_of_le_length (by omega),
    List.take_append_of_le_length (by rw [List.length_drop]; omega),
    List.drop_append_of_le_length (by omega),
    List.take_append_of_le_length (by rw [List.length_drop]; omega)]
  rfl

theorem handshake_uncovered (fits : reply.length ≤ replyBufferSize)
    (same : OnlyReceived order .handshake reply) :
    Decoder.handshake.Covered reply := by
  by_contra short
  have behind : reply.length ≤ 48 + 19 := by
    have few : ¬ 68 ≤ reply.length := short
    omega
  rcases handshake_read (filled_length fits 0) with ⟨_, _, first⟩
  rcases handshake_read (filled_length fits (ch '5')) with ⟨_, _, second⟩
  have agree := same.agree fits
  simp only [Decoder.run] at agree
  rw [first, second] at agree
  have fields := Decoded.handshake.inj (Except.ok.inj agree)
  exact filling_block_ne behind (by decide)
    (congrArg PeerHandshakeResponse.peerId fields)

theorem extendedHandshake_covered {address : Nat}
    (covered : (Decoder.extendedHandshake address).Covered reply) :
    OnlyReceived order (.extendedHandshake address) reply := by
  rcases peerExtendedHandshakeResponseInit_settled covered with
    ⟨response, runs⟩
  apply OnlyReceived.of_constant
  refine ⟨.extendedHandshake response, fun stale total => ?_⟩
  rw [Decoder.run, runs stale total]
  rfl

theorem extendedHandshake_uncovered {address : Nat}
    (fits : reply.length ≤ replyBufferSize)
    (same : OnlyReceived order (.extendedHandshake address) reply) :
    (Decoder.extendedHandshake address).Covered reply := by
  intro key member
  by_contra unsettled
  rcases peerExtendedHandshakeResponseInit_unsettled member fits
    unsettled with ⟨stop, stopped⟩
  rcases same.answers fits with ⟨decoded, answered⟩
  rw [Decoder.run, stopped] at answered
  cases answered

theorem announce_whole {stale : List UInt8} (header : 20 ≤ reply.length)
    (total : (reply ++ stale).length = replyBufferSize) :
    6 ∣ (reply.drop 20 ++ stale).length := by
  have size : replyBufferSize = 2048 := rfl
  rw [List.length_append] at total
  rw [List.length_append, List.length_drop]
  omega

/-- The run on a reply that holds the header. -/
theorem announce_run {stale : List UInt8} (header : 20 ≤ reply.length)
    (fits : reply.length ≤ replyBufferSize) :
    trackerAnnounceResponseInit order (reply ++ stale) reply.length =
      (countRecords (reply.drop 20).length (reply.drop 20 ++ stale)).map
        (announceFields order reply) := by
  have size : replyBufferSize = 2048 := rfl
  rw [trackerAnnounceResponseInit_of_le
      (by rw [List.length_append]; omega) (by omega), List.length_drop,
    List.drop_append_of_le_length header]
  congr 1
  funext copies
  exact announceFields_append header stale copies

theorem announce_covered (fits : reply.length ≤ replyBufferSize)
    (covered : Decoder.announce.Covered reply) :
    OnlyReceived order .announce reply := by
  rcases covered with ⟨header, settled⟩
  rcases countRecords_settled settled with ⟨copies, counts⟩
  apply OnlyReceived.of_constant
  refine ⟨.announce (announceFields order reply copies),
    fun stale total => ?_⟩
  rw [Decoder.run, announce_run header fits,
    counts stale (announce_whole header total)]
  rfl

/-- The header of a response behind a reply too short for it. -/
theorem announce_header_agree (fits : reply.length ≤ replyBufferSize)
    (same : OnlyReceived order .announce reply) : 20 ≤ reply.length := by
  by_contra short
  have size : replyBufferSize = 2048 := rfl
  have zeros := filled_length fits 0
  have digits := filled_length fits (ch '5')
  have noRecords : reply.length - 20 = 0 := by
    omega
  have agree := same.agree fits
  simp only [Decoder.run] at agree
  rw [trackerAnnounceResponseInit_of_le (by omega) (by omega),
    trackerAnnounceResponseInit_of_le (by omega) (by omega), noRecords,
    countRecords_zero, countRecords_zero] at agree
  have fields := Decoded.announce.inj (Except.ok.inj agree)
  have seeders := congrArg TrackerAnnounceResponse.seeders fields
  exact filling_block_ne (by omega : reply.length ≤ 16 + 3) (by decide)
    (networkField_inj (by omega) (by omega) seeders)

/-- The response tells how many peers were appended. -/
theorem announce_counts_inj {first second : Exec Nat}
    (same : (first.map (announceFields order reply)).map Decoded.announce =
      (second.map (announceFields order reply)).map Decoded.announce) :
    first = second := by
  cases first with
  | ok copies =>
      cases second with
      | ok others =>
          have fields := Decoded.announce.inj (Except.ok.inj same)
          have counts := congrArg
            (fun response : TrackerAnnounceResponse =>
              response.peers.count) fields
          simp only [announceFields, appendCopies, Nat.add_left_cancel_iff]
            at counts
          rw [counts]
      | error stop => cases same
  | error stop =>
      cases second with
      | ok others => cases same
      | error reason => exact congrArg Except.error (Except.error.inj same)

theorem announce_uncovered (fits : reply.length ≤ replyBufferSize)
    (same : OnlyReceived order .announce reply) :
    Decoder.announce.Covered reply := by
  have header := announce_header_agree fits same
  refine ⟨header, ?_⟩
  by_contra unsettled
  have whole := announce_whole header (filling_total fits 0)
  rw [filling, List.length_append, List.length_replicate] at whole
  have agree := same.agree fits
  simp only [Decoder.run] at agree
  rw [announce_run header fits, announce_run header fits] at agree
  have nonzero : ch '5' ≠ 0 := by
    decide
  exact countRecords_unsettled unsettled whole nonzero
    (announce_counts_inj agree)

end Decoders

/-! ## When only received bytes count -/

/-- A reply is decoded from its own bytes alone exactly when it holds all
that its decoder reads. -/
theorem onlyReceived_iff (order : ByteOrder) (decoder : Decoder)
    {reply : List UInt8} (fits : reply.length ≤ replyBufferSize) :
    OnlyReceived order decoder reply ↔ decoder.Covered reply := by
  cases decoder with
  | connect =>
      exact ⟨connect_uncovered fits, connect_covered⟩
  | announce =>
      exact ⟨announce_uncovered fits, announce_covered fits⟩
  | handshake =>
      exact ⟨handshake_uncovered fits, handshake_covered⟩
  | extendedHandshake address =>
      exact ⟨extendedHandshake_uncovered fits, extendedHandshake_covered⟩

theorem onlyReceived_iff_connect :
    OnlyReceived .little .connect (List.replicate 16 0) :=
  (onlyReceived_iff .little .connect (by decide)).mpr
    (by decide : 16 ≤ (List.replicate 16 (0 : UInt8)).length)

/-- An empty datagram is decoded from what lay in the array before. -/
theorem emptyConnect_not_onlyReceived :
    ¬ OnlyReceived .little .connect [] := by
  intro same
  have covered := connect_uncovered (by decide) same
  exact absurd covered (by decide : ¬ 16 ≤ ([] : List UInt8).length)

end UvgTorrent
