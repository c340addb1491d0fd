import UvgTorrent.Library.Fields
import UvgTorrent.Tracker.Packets

/-!
# The layout of the tracker requests

The array of a request is filled by copies of one field behind another.  Read
back at the widths of the protocol it gives the numbers that were put in.
The announce request copies two of its fields a second time from the wrong
place, and its struct shows them.
-/

namespace UvgTorrent

open CProgram CText CArray MachineInt

/-! ## What the protocol reads -/

def connectWidths : List Nat := [8, 4, 4]

def announceWidths : List Nat := [8, 4, 4, 20, 20, 8, 8, 8, 4, 4, 4, 4, 2, 2]

structure ConnectView where
  connectionId : Nat
  action : Nat
  transactionId : List UInt8
  deriving DecidableEq, Repr

structure AnnounceView where
  connectionId : Nat
  action : Nat
  transactionId : List UInt8
  infoHash : List UInt8
  peerId : List UInt8
  downloaded : Nat
  left : Nat
  uploaded : Nat
  event : Nat
  ip : Nat
  key : Nat
  numWant : Nat
  port : Nat
  extensions : Nat
  deriving DecidableEq, Repr

/-- A connect request as a tracker reads it. -/
def connectView (bytes : List UInt8) : Option ConnectView :=
  match splitFields connectWidths bytes with
  | [connectionId, action, transactionId] =>
      some ⟨bigEndian connectionId, bigEndian action, transactionId⟩
  | _ => none

/-- An announce request as a tracker reads it. -/
def announceView (bytes : List UInt8) : Option AnnounceView :=
  match splitFields announceWidths bytes with
  | [connectionId, action, transactionId, infoHash, peerId, downloaded,
      left, uploaded, event, ip, key, numWant, port, extensions] =>
      some
        { connectionId := bigEndian connectionId
          action := bigEndian action
          transactionId
          infoHash
          peerId
          downloaded := bigEndian downloaded
          left := bigEndian left
          uploaded := bigEndian uploaded
          event := bigEndian event
          ip := bigEndian ip
          key := bigEndian key
          numWant := bigEndian numWant
          port := bigEndian port
          extensions := bigEndian extensions }
  | _ => none

section Layout

variable {order : ByteOrder} {connectionId : Int64} {transactionId : Int32}
  {infoHashBytes peerId : List UInt8}

theorem connectCopies_widths (order : ByteOrder) (transactionId : Int32) :
    (connectCopies order transactionId).map List.length = connectWidths := by
  simp [connectCopies, store64, store32, connectWidths]

theorem announceCopies_widths (hash : infoHashBytes.length = 20)
    (id : peerId.length = 20) :
    (announceCopies order connectionId transactionId infoHashBytes
      peerId).map List.length = announceWidths := by
  simp [announceCopies, store64, store32, store16, announceWidths, hash, id]

/-- The tracker reads what the copies put in. -/
theorem connectView_message (order : ByteOrder) (transactionId : Int32) :
    connectView (connectMessage order transactionId) =
      some ⟨0x41727101980, 0, store32 order transactionId.toUInt32⟩ := by
  have read := splitFields_flatten (connectCopies order transactionId)
  rw [connectCopies_widths, connectCopies_flatten] at read
  rw [connectView, read, connectCopies]
  simp only [store64_signed, store32_signed, bigEndian_networkBytes]
  rfl

theorem announceView_message (hash : infoHashBytes.length = 20)
    (id : peerId.length = 20) :
    announceView (announceMessage order connectionId transactionId
      infoHashBytes peerId) =
        some
          { connectionId := connectionId.toUInt64.toNat
            action := 1
            transactionId := store32 order transactionId.toUInt32
            infoHash := infoHashBytes
            peerId
            downloaded := 0
            left := 0
            uploaded := 0
            event := 2
            ip := 0
            key := 1
            numWant := 1
            port := 0
            extensions := 0 } := by
  have read := splitFields_flatten (announceCopies order connectionId
    transactionId infoHashBytes peerId)
  rw [announceCopies_widths hash id, announceCopies_flatten] at read
  have bound : connectionId.toUInt64.toNat < 256 ^ 8 :=
    connectionId.toUInt64.toNat_lt
  rw [announceView, read, announceCopies]
  simp only [store64_signed, store32_signed, store32_htonl, store16_htons,
    bigEndian_networkBytes, Nat.mod_eq_of_lt bound]
  rfl

end Layout

/-- Both requests fill their arrays, each index once, and are read as the
protocol lays them out. -/
theorem trackerRequests_layout (order : ByteOrder) (connectionId : Int64)
    (transactionId : Int32) {infoHashBytes peerId : List UInt8}
    (hash : infoHashBytes.length = 20) (id : 20 ≤ peerId.length) :
    (∀ around, ∃ request,
      trackerAnnounceRequestInit around order connectionId transactionId
        infoHashBytes peerId = .ok request ∧
      FilledOnce (around.packet.block 100)
        (announceCopies order connectionId transactionId infoHashBytes
          (peerId.take 20)) request.bytes ∧
      announceView request.bytes = some
        { connectionId := connectionId.toUInt64.toNat
          action := 1
          transactionId := store32 order transactionId.toUInt32
          infoHash := infoHashBytes
          peerId := peerId.take 20
          downloaded := 0
          left := 0
          uploaded := 0
          event := 2
          ip := 0
          key := 1
          numWant := 1
          port := 0
          extensions := 0 }) ∧
    ∀ around, ∃ request,
      trackerConnectRequestInit around order transactionId = .ok request ∧
      FilledOnce (around.block 16) (connectCopies order transactionId)
        request.bytes ∧
      connectView request.bytes =
        some ⟨0x41727101980, 0, store32 order transactionId.toUInt32⟩ := by
  have idLength : (peerId.take 20).length = 20 := by
    rw [List.length_take]
    omega
  constructor
  · intro around
    rcases trackerAnnounceRequestInit_bytes around order connectionId
      transactionId hash id with ⟨request, built, bytes⟩
    have fills : (announceCopies order connectionId transactionId
        infoHashBytes (peerId.take 20)).flatten.length =
          (around.packet.block 100).cells.length := by
      rw [Surroundings.block_length, List.length_flatten,
        announceCopies_widths hash idLength]
      rfl
    have filled := filledOnce_of_fill rfl fills
    rw [announceCopies_flatten] at filled
    refine ⟨request, built, bytes ▸ filled, ?_⟩
    rw [bytes, announceView_message hash idLength]
  · intro around
    rcases trackerConnectRequestInit_bytes around order transactionId with
      ⟨request, built, bytes⟩
    have fills : (connectCopies order transactionId).flatten.length =
        (around.block 16).cells.length := by
      rw [Surroundings.block_length, List.length_flatten,
        connectCopies_widths]
      rfl
    have filled := filledOnce_of_fill rfl fills
    rw [connectCopies_flatten] at filled
    refine ⟨request, built, bytes ▸ filled, ?_⟩
    rw [bytes, connectView_message]

theorem trackerRequests_layout_letters :
    (∀ around, ∃ request,
      trackerAnnounceRequestInit around .little 0x0102030405060708
        0x11121314 (text "ABCDEFGHIJKLMNOPQRST")
        (text "-UVG012345678912345-" ++ [0]) = .ok request ∧
      FilledOnce (around.packet.block 100)
        (announceCopies .little 0x0102030405060708 0x11121314
          (text "ABCDEFGHIJKLMNOPQRST")
          ((text "-UVG012345678912345-" ++ [0]).take 20)) request.bytes ∧
      announceView request.bytes = some
        { connectionId := 0x0102030405060708
          action := 1
          transactionId := store32 .little 0x11121314
          infoHash := text "ABCDEFGHIJKLMNOPQRST"
          peerId := (text "-UVG012345678912345-" ++ [0]).take 20
          downloaded := 0
          left := 0
          uploaded := 0
          event := 2
          ip := 0
          key := 1
          numWant := 1
          port := 0
          extensions := 0 }) ∧
    ∀ around, ∃ request,
      trackerConnectRequestInit around .little 0x11121314 = .ok request ∧
      FilledOnce (around.block 16) (connectCopies .little 0x11121314)
        request.bytes ∧
      connectView request.bytes =
        some ⟨0x41727101980, 0, store32 .little 0x11121314⟩ :=
  trackerRequests_layout .little 0x0102030405060708 0x11121314 (by decide)
    (by decide)

/-! ## The struct -/

/-- The memory of the fields of an announce request, in their order. -/
def TrackerAnnounceRequest.fieldMemory (order : ByteOrder)
    (request : TrackerAnnounceRequest) : List UInt8 :=
  [store64 order request.connectionId.toUInt64,
    store32 order request.action.toUInt32,
    store32 order request.transactionId.toUInt32, request.infoHash,
    request.peerId, store64 order request.downloaded.toUInt64,
    store64 order request.left.toUInt64,
    store64 order request.uploaded.toUInt64,
    store32 order request.event.toUInt32, store32 order request.ip,
    store32 order request.key, store32 order request.numWant.toUInt32,
    store16 order request.port, store16 order request.extensions].flatten

/-- The request that is built shows the same in its struct and in its
array. -/
def ViewsAgree (around : AnnounceSurroundings) (order : ByteOrder)
    (connectionId : Int64) (transactionId : Int32)
    (infoHashBytes peerId : List UInt8) : Prop :=
  ∃ request, trackerAnnounceRequestInit around order connectionId
      transactionId infoHashBytes peerId = .ok request ∧
    request.fieldMemory order = request.bytes

section Struct

variable {around : AnnounceSurroundings} {order : ByteOrder}
  {connectionId : Int64} {transactionId : Int32}
  {infoHashBytes peerId : List UInt8} {request : TrackerAnnounceRequest}

/-- Only the hash and the peer id come from elsewhere. -/
theorem fieldMemory_of_init (hash : infoHashBytes.length = 20)
    (id : 20 ≤ peerId.length)
    (built : trackerAnnounceRequestInit around order connectionId
      transactionId infoHashBytes peerId = .ok request) :
    request.fieldMemory order =
      announceMessage order connectionId transactionId
        (around.atInfoHashBytes.block 20).cells
        (around.atPeerId.block 20).cells := by
  have firstSlice : slice infoHashBytes 0 20 =
      .ok ((infoHashBytes.drop 0).take 20) :=
    slice_of_le (by omega)
  have secondSlice : slice peerId 0 20 = .ok ((peerId.drop 0).take 20) :=
    slice_of_le (by omega)
  simp only [trackerAnnounceRequestInit, firstSlice, secondSlice, ok_bind]
    at built
  rcases (bind_eq_ok_iff _ _ _).mp built with ⟨bytes, _, fields⟩
  cases fields
  rw [← announceCopies_flatten]
  rfl

/-- A struct that agrees with the array has read what the parameters point
to from the parameters themselves. -/
theorem ViewsAgree.held (hash : infoHashBytes.length = 20)
    (id : 20 ≤ peerId.length)
    (agree : ViewsAgree around order connectionId transactionId
      infoHashBytes peerId) :
    (around.atInfoHashBytes.block 20).cells = infoHashBytes ∧
      (around.atPeerId.block 20).cells = peerId.take 20 := by
  have idLength : (peerId.take 20).length = 20 := by
    rw [List.length_take]
    omega
  rcases trackerAnnounceRequestInit_bytes around order connectionId
    transactionId hash id with ⟨request, built, bytes⟩
  rcases agree with ⟨same, again, equal⟩
  cases built.symm.trans again
  rw [fieldMemory_of_init hash id built, bytes] at equal
  have views := congrArg announceView equal
  rw [announceView_message (Surroundings.block_length _ _)
    (Surroundings.block_length _ _),
    announceView_message hash idLength] at views
  have fields := Option.some.inj views
  exact ⟨congrArg AnnounceView.infoHash fields,
    congrArg AnnounceView.peerId fields⟩

/-- The struct and the array agree exactly when the memory from the two
parameters on holds what they point to. -/
theorem trackerAnnounceRequestInit_viewsAgree_iff
    (around : AnnounceSurroundings) (order : ByteOrder)
    (connectionId : Int64) (transactionId : Int32)
    {infoHashBytes peerId : List UInt8} (hash : infoHashBytes.length = 20)
    (id : 20 ≤ peerId.length) :
    ViewsAgree around order connectionId transactionId infoHashBytes
        peerId ↔
      (around.atInfoHashBytes.block 20).cells = infoHashBytes ∧
        (around.atPeerId.block 20).cells = peerId.take 20 := by
  constructor
  · exact ViewsAgree.held hash id
  · intro held
    rcases trackerAnnounceRequestInit_bytes around order connectionId
      transactionId hash id with ⟨request, built, bytes⟩
    refine ⟨request, built, ?_⟩
    rw [fieldMemory_of_init hash id built, bytes, held.1, held.2]

end Struct

/-- The memory of a pointer on a little-endian host, with zeros behind it. -/
def atPointer : Surroundings where
  address := 0
  junk := fun index =>
    [0x60, 0xe9, 0xff, 0xff, 0xff, 0x7f, 0x00, 0x00].getD index 0

theorem trackerAnnounceRequestInit_viewsAgree_pointer :
    ViewsAgree ⟨atPointer, atPointer, atPointer⟩ .little 1 2
        (List.replicate 20 0xab) (text "UVG01234567891234567") ↔
      (atPointer.block 20).cells = List.replicate 20 0xab ∧
        (atPointer.block 20).cells =
          (text "UVG01234567891234567").take 20 :=
  trackerAnnounceRequestInit_viewsAgree_iff
    ⟨atPointer, atPointer, atPointer⟩ .little 1 2 rfl (by decide)

/-- The struct shows a pointer in place of the hash that it points to. -/
theorem trackerAnnounceRequestInit_viewsDiffer :
    ¬ ViewsAgree ⟨atPointer, atPointer, atPointer⟩ .little 1 2
      (List.replicate 20 0xab) (text "UVG01234567891234567") := by
  intro agree
  have held := agree.held rfl (by decide)
  exact absurd held.1 (by decide)

end UvgTorrent
