import UvgTorrent.DataStructures.Linkedlist
import UvgTorrent.Library.CString
import UvgTorrent.Surroundings
import UvgTorrent.Utils.NetUtils

/-!
# The connect packet and the announce packet

A request keeps its fields as they lie in memory and, once more, in the array
that is sent.  A response reads its fields at fixed places; the size of the
datagram only ends the loop over the peers.  Transaction ids are not
converted in either direction.
-/

namespace UvgTorrent

open CProgram CText CArray MachineInt

/-! ## The connect packet -/

structure TrackerConnectRequest where
  connectionId : Int64
  action : Int32
  transactionId : Int32
  bytes : List UInt8

/-- `Tracker_Connect_Request_init`. -/
def trackerConnectRequestInit (around : Surroundings) (order : ByteOrder)
    (transactionId : Int32) : Exec TrackerConnectRequest := do
  let connectionId := (htonllUtil order 0x41727101980).toInt64
  let action := (htonlUtil order 0).toInt32
  let bytes ← (around.block 16).copyFields 0
    [store64 order connectionId.toUInt64, store32 order action.toUInt32,
      store32 order transactionId.toUInt32]
  pure ⟨connectionId, action, transactionId, bytes.cells⟩

structure TrackerConnectResponse where
  action : Int32
  transactionId : Int32
  connectionId : Int64
  deriving DecidableEq, Repr

/-- A 32-bit field that is taken over as it lies in memory. -/
def rawInt32 (order : ByteOrder) (rawResponse : List UInt8) (pos : Nat) :
    Exec Int32 := do
  let bytes ← slice rawResponse pos 4
  pure (load32 order bytes).toInt32

/-- A 32-bit field in network order. -/
def networkInt32 (order : ByteOrder) (rawResponse : List UInt8) (pos : Nat) :
    Exec Int32 := do
  let bytes ← slice rawResponse pos 4
  pure (ntohlUtil order (load32 order bytes)).toInt32

/-- `Tracker_Connect_Response_init`, which does not read the size. -/
def trackerConnectResponseInit (order : ByteOrder)
    (rawResponse : List UInt8) : Exec TrackerConnectResponse := do
  let action ← networkInt32 order rawResponse 0
  let transactionId ← rawInt32 order rawResponse 4
  let eight ← slice rawResponse 8 8
  let connectionId := (ntohllUtil order (load64 order eight)).toInt64
  pure ⟨action, transactionId, connectionId⟩

/-! ## The announce packet -/

structure TrackerAnnounceRequest where
  connectionId : Int64
  action : Int32
  transactionId : Int32
  infoHash : List UInt8
  peerId : List UInt8
  downloaded : Int64
  left : Int64
  uploaded : Int64
  event : Int32
  ip : UInt32
  key : UInt32
  numWant : Int32
  port : UInt16
  extensions : UInt16
  bytes : List UInt8

/-- What the machine decides for an announce request: the fresh packet, and
the memory from its parameters `info_hash_bytes` and `peer_id` on. -/
structure AnnounceSurroundings where
  packet : Surroundings
  atInfoHashBytes : Surroundings
  atPeerId : Surroundings

/-- `Tracker_Announce_Request_init`. -/
def trackerAnnounceRequestInit (around : AnnounceSurroundings)
    (order : ByteOrder) (connectionId : Int64) (transactionId : Int32)
    (infoHashBytes peerId : List UInt8) : Exec TrackerAnnounceRequest := do
  let action := (htonlUtil order 1).toInt32
  let downloaded := (htonllUtil order 0).toInt64
  let left := (htonllUtil order 0).toInt64
  let uploaded := (htonllUtil order 0).toInt64
  let event := (htonlUtil order 2).toInt32
  let ip := htonlUtil order 0
  let key := htonlUtil order 1
  let numWant := (htonlUtil order 1).toInt32
  let port := htonsUtil order 0
  let extensions := htonsUtil order 0
  let connId := (htonllUtil order connectionId.toUInt64).toInt64
  let hash ← slice infoHashBytes 0 20
  let id ← slice peerId 0 20
  let bytes ← (around.packet.block 100).copyFields 0
    [store64 order connId.toUInt64, store32 order action.toUInt32,
      store32 order transactionId.toUInt32, hash, id,
      store64 order downloaded.toUInt64, store64 order left.toUInt64,
      store64 order uploaded.toUInt64, store32 order event.toUInt32,
      store32 order ip, store32 order key, store32 order numWant.toUInt32,
      store16 order port, store16 order extensions]
  pure
    { connectionId := connId
      action
      transactionId
      -- these two are copied from the addresses of the parameters
      infoHash := (around.atInfoHashBytes.block 20).cells
      peerId := (around.atPeerId.block 20).cells
      downloaded
      left
      uploaded
      event
      ip
      key
      numWant
      port
      extensions
      bytes := bytes.cells }

/-- A `Peer` as `Peer_init` fills it in. -/
structure AnnouncedPeer where
  ip : List UInt8
  port : UInt16
  deriving DecidableEq, Repr

structure TrackerAnnounceResponse where
  action : Int32
  transactionId : Int32
  interval : Int32
  leechers : Int32
  seeders : Int32
  peers : Linkedlist AnnouncedPeer

/-- `(int_ip >> shift) & 0xFF`. -/
def addressByte (intIp : Int32) (shift : Nat) : Nat :=
  ((intIp.toInt >>> shift) % 256).toNat

/-- The text that `sprintf` puts over the one of `inet_ntoa`. -/
def addressText (intIp : Int32) : List UInt8 :=
  decimal (addressByte intIp 24) ++ text "." ++
    decimal (addressByte intIp 16) ++ text "." ++
    decimal (addressByte intIp 8) ++ text "." ++
    decimal (addressByte intIp 0)

/-- The peer that the loop appends for every record. -/
def appendedPeer : AnnouncedPeer :=
  ⟨text "127.0.0.1", 51413⟩

/-- The loop over the records from `peerPosition` on.  A round that appends
moves on by six bytes. -/
def announcedPeersLoop (order : ByteOrder) (rawResponse : List UInt8)
    (resSize : Nat) : Nat → Nat → Linkedlist AnnouncedPeer →
      Exec (Linkedlist AnnouncedPeer)
  | 0, _, _ => .error .unfinished
  | rounds + 1, peerPosition, peers =>
      if 20 + peerPosition < resSize then do
        let intIp ← networkInt32 order rawResponse (20 + peerPosition)
        let two ← slice rawResponse (20 + peerPosition + 4) 2
        -- the port is read and not used
        let _port := ntohsUtil order (load16 order two)
        if addressText intIp = text "0.0.0.0" then
          pure peers
        else
          let (_, peers) := linkedlistAppend peers appendedPeer
          announcedPeersLoop order rawResponse resSize rounds
            (peerPosition + 6) peers
      else
        pure peers

/-- `Tracker_Announce_Response_init`. -/
def trackerAnnounceResponseInit (order : ByteOrder)
    (rawResponse : List UInt8) (resSize : Int) :
    Exec TrackerAnnounceResponse := do
  let action ← networkInt32 order rawResponse 0
  let transactionId ← rawInt32 order rawResponse 4
  let interval ← networkInt32 order rawResponse 8
  let leechers ← networkInt32 order rawResponse 12
  let seeders ← networkInt32 order rawResponse 16
  let peers ← announcedPeersLoop order rawResponse (toSize resSize)
    (toSize resSize + 1) 0 linkedlistNew
  pure ⟨action, transactionId, interval, leechers, seeders, peers⟩

/-! ## The requests -/

/-- The copies of `Tracker_Connect_Request_init` into its array. -/
def connectCopies (order : ByteOrder) (transactionId : Int32) :
    List (List UInt8) :=
  [store64 order (htonllUtil order 0x41727101980).toInt64.toUInt64,
    store32 order (htonlUtil order 0).toInt32.toUInt32,
    store32 order transactionId.toUInt32]

/-- The copies of `Tracker_Announce_Request_init` into its array. -/
def announceCopies (order : ByteOrder) (connectionId : Int64)
    (transactionId : Int32) (infoHashBytes peerId : List UInt8) :
    List (List UInt8) :=
  [store64 order (htonllUtil order connectionId.toUInt64).toInt64.toUInt64,
    store32 order (htonlUtil order 1).toInt32.toUInt32,
    store32 order transactionId.toUInt32, infoHashBytes, peerId,
    store64 order (htonllUtil order 0).toInt64.toUInt64,
    store64 order (htonllUtil order 0).toInt64.toUInt64,
    store64 order (htonllUtil order 0).toInt64.toUInt64,
    store32 order (htonlUtil order 2).toInt32.toUInt32,
    store32 order (htonlUtil order 0), store32 order (htonlUtil order 1),
    store32 order (htonlUtil order 1).toInt32.toUInt32,
    store16 order (htonsUtil order 0), store16 order (htonsUtil order 0)]

/-- The connect request that is sent. -/
def connectMessage (order : ByteOrder) (transactionId : Int32) :
    List UInt8 :=
  networkBytes 8 0x41727101980 ++ (networkBytes 4 0 ++
    store32 order transactionId.toUInt32)

/-- The announce request that is sent. -/
def announceMessage (order : ByteOrder) (connectionId : Int64)
    (transactionId : Int32) (infoHash peerId : List UInt8) : List UInt8 :=
  networkBytes 8 connectionId.toUInt64.toNat ++ (networkBytes 4 1 ++
    (store32 order transactionId.toUInt32 ++ (infoHash ++ (peerId ++
      (networkBytes 8 0 ++ (networkBytes 8 0 ++ (networkBytes 8 0 ++
        (networkBytes 4 2 ++ (networkBytes 4 0 ++ (networkBytes 4 1 ++
          (networkBytes 4 1 ++ (networkBytes 2 0 ++
            networkBytes 2 0))))))))))))

section Requests

variable {order : ByteOrder} {connectionId : Int64} {transactionId : Int32}
  {infoHashBytes peerId : List UInt8}

theorem store64_signed (order : ByteOrder) (value : UInt64) :
    store64 order (htonllUtil order value).toInt64.toUInt64 =
      networkBytes 8 value.toNat := by
  rw [UInt64.toUInt64_toInt64, store64_htonll]

theorem store32_signed (order : ByteOrder) (value : UInt32) :
    store32 order (htonlUtil order value).toInt32.toUInt32 =
      networkBytes 4 value.toNat := by
  rw [UInt32.toUInt32_toInt32, store32_htonl]

@[simp]
theorem store32_length (order : ByteOrder) (value : UInt32) :
    (store32 order value).length = 4 :=
  store_length order 4 value.toNat

/-- What the copies of the connect request leave in its array. -/
theorem trackerConnectRequestInit_copies (around : Surroundings)
    (order : ByteOrder) (transactionId : Int32) :
    (trackerConnectRequestInit around order transactionId).map
        TrackerConnectRequest.bytes =
      ((around.block 16).copyFields 0
        (connectCopies order transactionId)).map Buffer.cells := by
  show ((around.block 16).copyFields 0
      (connectCopies order transactionId) >>= fun bytes => _).map _ = _
  cases (around.block 16).copyFields 0
      (connectCopies order transactionId) with
  | error stop => rfl
  | ok copied => rfl

theorem trackerAnnounceRequestInit_copies (around : AnnounceSurroundings)
    (order : ByteOrder) (connectionId : Int64) (transactionId : Int32)
    (hash : infoHashBytes.length = 20) (id : 20 ≤ peerId.length) :
    (trackerAnnounceRequestInit around order connectionId transactionId
        infoHashBytes peerId).map TrackerAnnounceRequest.bytes =
      ((around.packet.block 100).copyFields 0
        (announceCopies order connectionId transactionId infoHashBytes
          (peerId.take 20))).map Buffer.cells := by
  have firstSlice : slice infoHashBytes 0 20 = .ok infoHashBytes := by
    rw [slice_of_le (by omega), List.drop_zero,
      List.take_of_length_le (by omega)]
  have secondSlice : slice peerId 0 20 = .ok (peerId.take 20) := by
    rw [slice_of_le (by omega), List.drop_zero]
  simp only [trackerAnnounceRequestInit, firstSlice, secondSlice, ok_bind]
  show ((around.packet.block 100).copyFields 0
      (announceCopies order connectionId transactionId infoHashBytes
        (peerId.take 20)) >>= fun bytes => _).map _ = _
  cases (around.packet.block 100).copyFields 0
      (announceCopies order connectionId transactionId infoHashBytes
        (peerId.take 20)) with
  | error stop => rfl
  | ok copied => rfl

theorem connectCopies_flatten (order : ByteOrder) (transactionId : Int32) :
    (connectCopies order transactionId).flatten =
      connectMessage order transactionId := by
  simp only [connectCopies, store64_signed, store32_signed,
    List.flatten_cons, List.flatten_nil, List.append_nil, connectMessage]
  rfl

theorem announceCopies_flatten (order : ByteOrder) (connectionId : Int64)
    (transactionId : Int32) (infoHashBytes peerId : List UInt8) :
    (announceCopies order connectionId transactionId infoHashBytes
      peerId).flatten =
        announceMessage order connectionId transactionId infoHashBytes
          peerId := by
  simp only [announceCopies, store64_signed, store32_signed, store32_htonl,
    store16_htons, List.flatten_cons, List.flatten_nil, List.append_nil,
    announceMessage]
  rfl

/-- The copies of a request that fill its array are the bytes it sends. -/
theorem copied_bytes {Request : Type} {built : Exec Request}
    {bytes : Request → List UInt8} {array : Buffer}
    {copies : List (List UInt8)}
    (performed : built.map bytes = (array.copyFields 0 copies).map Buffer.cells)
    (fills : copies.flatten.length = array.cells.length) :
    ∃ request, built = .ok request ∧ bytes request = copies.flatten := by
  rw [Buffer.copyFields_fill fills] at performed
  cases built with
  | error stop => cases performed
  | ok request => exact ⟨request, rfl, Except.ok.inj performed⟩

theorem trackerConnectRequestInit_bytes (around : Surroundings)
    (order : ByteOrder) (transactionId : Int32) :
    ∃ request, trackerConnectRequestInit around order transactionId =
        .ok request ∧
      request.bytes = connectMessage order transactionId := by
  rw [← connectCopies_flatten]
  refine copied_bytes
    (trackerConnectRequestInit_copies around order transactionId) ?_
  rw [connectCopies_flatten, Surroundings.block_length]
  simp [connectMessage]

theorem trackerAnnounceRequestInit_bytes (around : AnnounceSurroundings)
    (order : ByteOrder) (connectionId : Int64) (transactionId : Int32)
    {infoHashBytes peerId : List UInt8} (hash : infoHashBytes.length = 20)
    (id : 20 ≤ peerId.length) :
    ∃ request, trackerAnnounceRequestInit around order connectionId
        transactionId infoHashBytes peerId = .ok request ∧
      request.bytes = announceMessage order connectionId transactionId
        infoHashBytes (peerId.take 20) := by
  have idLength : (peerId.take 20).length = 20 := by
    rw [List.length_take]
    omega
  rw [← announceCopies_flatten]
  refine copied_bytes (trackerAnnounceRequestInit_copies around order
    connectionId transactionId hash id) ?_
  rw [announceCopies_flatten, Surroundings.block_length]
  simp [announceMessage, hash, idLength]

end Requests

/-! ## The responses -/

/-- The 32-bit number in network order that lies at a place. -/
def networkField (rawResponse : List UInt8) (pos : Nat) : Int32 :=
  (UInt32.ofNat (bigEndian ((rawResponse.drop pos).take 4))).toInt32

def rawField (order : ByteOrder) (rawResponse : List UInt8) (pos : Nat) :
    Int32 :=
  (load32 order ((rawResponse.drop pos).take 4)).toInt32

def connectFields (order : ByteOrder) (rawResponse : List UInt8) :
    TrackerConnectResponse where
  action := networkField rawResponse 0
  transactionId := rawField order rawResponse 4
  connectionId :=
    (UInt64.ofNat (bigEndian ((rawResponse.drop 8).take 8))).toInt64

section Responses

variable {order : ByteOrder} {rawResponse : List UInt8} {pos : Nat}

theorem field_length {count : Nat}
    (inside : pos + count ≤ rawResponse.length) :
    ((rawResponse.drop pos).take count).length = count := by
  rw [List.length_take, List.length_drop]
  omega

theorem rawInt32_of_le (inside : pos + 4 ≤ rawResponse.length) :
    rawInt32 order rawResponse pos = .ok (rawField order rawResponse pos) := by
  rw [rawInt32, slice_of_le inside]
  rfl

theorem networkInt32_of_le (inside : pos + 4 ≤ rawResponse.length) :
    networkInt32 order rawResponse pos =
      .ok (networkField rawResponse pos) := by
  have read := @ntohl_load32 order _ (field_length inside)
  rw [networkInt32, slice_of_le inside, ok_bind, networkField, ← read,
    UInt32.ofNat_toNat]
  rfl

theorem networkInt32_of_lt (outside : rawResponse.length < pos + 4) :
    networkInt32 order rawResponse pos = .error .readPast := by
  rw [networkInt32, slice_of_lt outside]
  rfl

theorem trackerConnectResponseInit_of_le
    (header : 16 ≤ rawResponse.length) :
    trackerConnectResponseInit order rawResponse =
      .ok (connectFields order rawResponse) := by
  have inside : 8 + 8 ≤ rawResponse.length := header
  have read := @ntohll_load64 order _ (field_length inside)
  rw [trackerConnectResponseInit, networkInt32_of_le (by omega), ok_bind,
    rawInt32_of_le (by omega), ok_bind, slice_of_le inside, ok_bind,
    connectFields, ← read, UInt64.ofNat_toNat]
  rfl

/-- The field of a number tells its bytes. -/
theorem networkField_inj {other : List UInt8}
    (inside : pos + 4 ≤ rawResponse.length)
    (otherInside : pos + 4 ≤ other.length)
    (same : networkField rawResponse pos = networkField other pos) :
    (rawResponse.drop pos).take 4 = (other.drop pos).take 4 := by
  have length := field_length inside
  have otherLength := field_length otherInside
  have bound := bigEndian_lt ((rawResponse.drop pos).take 4)
  have otherBound := bigEndian_lt ((other.drop pos).take 4)
  rw [length] at bound
  rw [otherLength] at otherBound
  have numbers := congrArg (fun field : Int32 => field.toUInt32.toNat) same
  simp only [networkField, UInt32.toUInt32_toInt32,
    UInt32.toNat_ofNat_of_lt' bound,
    UInt32.toNat_ofNat_of_lt' otherBound] at numbers
  exact bigEndian_inj (length.trans otherLength.symm) numbers

theorem connectFields_inj {other : List UInt8}
    (header : 16 ≤ rawResponse.length) (otherHeader : 16 ≤ other.length)
    (same : connectFields order rawResponse = connectFields order other) :
    (rawResponse.drop 8).take 8 = (other.drop 8).take 8 := by
  have length := @field_length rawResponse 8 8 header
  have otherLength := @field_length other 8 8 otherHeader
  have bound := bigEndian_lt ((rawResponse.drop 8).take 8)
  have otherBound := bigEndian_lt ((other.drop 8).take 8)
  rw [length] at bound
  rw [otherLength] at otherBound
  have numbers := congrArg (fun response : TrackerConnectResponse =>
    response.connectionId.toUInt64.toNat) same
  simp only [connectFields, UInt64.toUInt64_toInt64,
    UInt64.toNat_ofNat_of_lt' bound,
    UInt64.toNat_ofNat_of_lt' otherBound] at numbers
  exact bigEndian_inj (length.trans otherLength.symm) numbers

/-- A field does not depend on what stands behind it. -/
theorem networkField_append {front : List UInt8}
    (inside : pos + 4 ≤ front.length) (rest : List UInt8) :
    networkField (front ++ rest) pos = networkField front pos := by
  rw [networkField, networkField,
    List.drop_append_of_le_length (by omega),
    List.take_append_of_le_length (by rw [List.length_drop]; omega)]

theorem rawField_append {front : List UInt8}
    (inside : pos + 4 ≤ front.length) (rest : List UInt8) :
    rawField order (front ++ rest) pos = rawField order front pos := by
  rw [rawField, rawField, List.drop_append_of_le_length (by omega),
    List.take_append_of_le_length (by rw [List.length_drop]; omega)]

theorem connectFields_append {front : List UInt8}
    (header : 16 ≤ front.length) (rest : List UInt8) :
    connectFields order (front ++ rest) = connectFields order front := by
  rw [connectFields, connectFields, networkField_append (by omega),
    rawField_append (by omega), List.drop_append_of_le_length (by omega),
    List.take_append_of_le_length (by rw [List.length_drop]; omega)]

end Responses

end UvgTorrent
