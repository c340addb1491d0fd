import UvgTorrent.Library.EventLog
import UvgTorrent.Tracker.ExchangeSpec

/-!
# Ids and hashes on the wire

The connection id of an announce request has the bytes that the connect
response had, an id that a tracker echoes passes the comparison, and the
tracker and the peers are told one info hash.
-/

namespace UvgTorrent

open CProgram CText CArray MachineInt EventLog

/-! ## Runs -/

/-- What the machine and the network decide for a tracker. -/
structure TrackerFuture where
  connecting : Stream' Descriptors.Outcome
  coming : TrackerRequest → Stream' Attempt
  visits : Stream' PeerVisit

def TrackerFuture.start (future : TrackerFuture) : TrackerRun where
  tracker := trackerNew
  connecting := future.connecting
  coming := future.coming
  visits := future.visits
  visited := []
  log := []

/-- Calls of the two functions in any order. -/
def trackerCalls (order : ByteOrder) (hash : CString) (depth : Nat) :
    List TrackerRequest → Prog TrackerRun Unit
  | [] => pure ()
  | .connect :: rest => do
      let _ ← trackerConnect order
      trackerCalls order hash depth rest
  | .announce :: rest => do
      let _ ← trackerAnnounce order hash depth
      trackerCalls order hash depth rest

theorem TalkInvariant.trackerCalls {order : ByteOrder} {hash : CString}
    {Holds : TrackerRun → Prop} {Ready : List UInt8 → TrackerRun → Prop}
    (talk : TalkInvariant order hash Holds Ready) (depth : Nat)
    (calls : List TrackerRequest) {run : TrackerRun} (holds : Holds run) :
    Holds ((trackerCalls order hash depth calls).from run).2 := by
  induction calls generalizing run with
  | nil =>
      exact holds
  | cons request rest inductionHypothesis =>
      cases request with
      | connect =>
          exact bind_ends (talk.trackerConnect holds)
            fun _ _ further => inductionHypothesis further
      | announce =>
          exact bind_ends (talk.trackerAnnounce depth holds)
            fun _ _ further => inductionHypothesis further

/-! ## The fields of the messages -/

section Messages

variable (order : ByteOrder) (connectionId : Int64) (transactionId : Int32)
  {infoHash : List UInt8} (peerId : List UInt8)

theorem field_behind {front field rest : List UInt8} {start count : Nat}
    (first : front.length = start) (second : field.length = count) :
    ((front ++ (field ++ rest)).drop start).take count = field := by
  rw [List.drop_left' first, List.take_left' second]

theorem connectMessage_id :
    ((connectMessage order transactionId).drop 12).take 4 =
      store32 order transactionId.toUInt32 := by
  have split := @field_behind
    (networkBytes 8 0x41727101980 ++ networkBytes 4 0)
    (store32 order transactionId.toUInt32) [] 12 4 (by simp) (by simp)
  rwa [List.append_nil, List.append_assoc] at split

theorem announceMessage_connectionId :
    (announceMessage order connectionId transactionId infoHash
      peerId).take 8 = networkBytes 8 connectionId.toUInt64.toNat :=
  List.take_left' (networkBytes_length 8 _)

theorem announceMessage_action :
    ((announceMessage order connectionId transactionId infoHash
      peerId).drop 8).take 4 = networkBytes 4 1 :=
  field_behind (networkBytes_length 8 _) (networkBytes_length 4 1)

theorem announceMessage_id :
    ((announceMessage order connectionId transactionId infoHash
      peerId).drop 12).take 4 = store32 order transactionId.toUInt32 := by
  rw [announceMessage, ← List.append_assoc]
  exact field_behind (by simp) (store32_length order _)

theorem announceMessage_hash (twenty : infoHash.length = 20) :
    ((announceMessage order connectionId transactionId infoHash
      peerId).drop 16).take 20 = infoHash := by
  rw [announceMessage, ← List.append_assoc, ← List.append_assoc]
  exact field_behind (by simp) twenty

end Messages

/-! ## The fields of a datagram in its array -/

section Datagram

variable {order : ByteOrder} {attempt : Attempt} {datagram : List UInt8}

theorem rawField_echo {message : List UInt8} {transactionId : Int32}
    (echoed : (datagram.drop 4).take 4 = (message.drop 12).take 4)
    (sent : (message.drop 12).take 4 = store32 order transactionId.toUInt32)
    (long : 8 ≤ datagram.length) :
    rawField order (attempt.array datagram) 4 = transactionId := by
  rw [Attempt.array, rawField_append (by omega), rawField, echoed, sent,
    load32_store32, Int32.toInt32_toUInt32]

/-- A comparison that succeeds has compared equal bytes. -/
theorem rawField_sent {message : List UInt8} {transactionId : Int32}
    (same : rawField order (attempt.array datagram) 4 = transactionId)
    (sent : (message.drop 12).take 4 = store32 order transactionId.toUInt32)
    (long : 8 ≤ datagram.length) :
    (datagram.drop 4).take 4 = (message.drop 12).take 4 := by
  have four : ((datagram.drop 4).take 4).length = 4 := by
    rw [List.length_take, List.length_drop]
    omega
  rw [Attempt.array, rawField_append (by omega), rawField] at same
  rw [sent, ← same, UInt32.toUInt32_toInt32, store32_load32 four]

theorem trackerConnectResponse_fields {response : TrackerConnectResponse}
    {reply : List UInt8}
    (decoded : trackerConnectResponseInit order
      (attempt.array (arrives reply)) = .ok response) :
    response = connectFields order (attempt.array (arrives reply)) := by
  rw [trackerConnectResponseInit_of_le (by rw [array_length]; decide)]
    at decoded
  exact (Except.ok.inj decoded).symm

theorem arrives_lt (reply : List UInt8) :
    (arrives reply).length < 2 ^ 64 := by
  have cut : (arrives reply).length ≤ 2048 := List.length_take_le 2048 reply
  omega

theorem trackerAnnounceResponse_fields {response : TrackerAnnounceResponse}
    {reply : List UInt8} {resSize : Nat} (size : resSize < 2 ^ 64)
    (decoded : trackerAnnounceResponseInit order
      (attempt.array (arrives reply)) resSize = .ok response) :
    ∃ copies, response =
      announceFields order (attempt.array (arrives reply)) copies := by
  rw [trackerAnnounceResponseInit_of_le (by rw [array_length]; decide) size]
    at decoded
  cases counted : countRecords (resSize - 20)
      ((attempt.array (arrives reply)).drop 20) with
  | ok copies =>
      rw [counted] at decoded
      exact ⟨copies, (Except.ok.inj decoded).symm⟩
  | error stop =>
      rw [counted] at decoded
      cases decoded

end Datagram

/-! ## The ids -/

def acceptedConnect : TrackerEvent → Option (List UInt8)
  | .accepted .connect datagram => some datagram
  | _ => none

/-- The connect response that was accepted last. -/
def lastAccepted (log : List TrackerEvent) : Option (List UInt8) :=
  (log.filterMap acceptedConnect).getLast?

/-- An announce request repeats the connection id of the last connect
response and has the action of an announce. -/
def RepeatsConnectionId (before : List TrackerEvent)
    (message : List UInt8) : Prop :=
  (∀ datagram, lastAccepted before = some datagram →
    16 ≤ datagram.length →
      message.take 8 = (datagram.drop 8).take 8) ∧
  (message.drop 8).take 4 = [0, 0, 0, 1]

/-- The last datagram echoes the transaction id of the request before it. -/
def Echoes (before : List TrackerEvent) : Prop :=
  ∃ front request message code datagram,
    before =
      front ++ [.sent request message code, .received datagram] ∧
    8 ≤ datagram.length ∧
    (datagram.drop 4).take 4 = (message.drop 12).take 4

/-- What the ids in an event must be, after the events before it. -/
def IdsKept (before : List TrackerEvent) : TrackerEvent → Prop
  | .sent .announce message _ => RepeatsConnectionId before message
  | .compared same => Echoes before → same = true
  | _ => True

/-- The connection id in a connect response. -/
def connectionIdOf (datagram : List UInt8) : Int64 :=
  (UInt64.ofNat (bigEndian ((datagram.drop 8).take 8))).toInt64

/-- The tracker keeps the connection id that it was told last. -/
structure HoldsIds (run : TrackerRun) : Prop where
  log : Orderly IdsKept run.log
  connectionId : ∀ datagram, lastAccepted run.log = some datagram →
    16 ≤ datagram.length →
      run.tracker.connectionId = connectionIdOf datagram

section Ids

variable {log : List TrackerEvent} {order : ByteOrder}

theorem lastAccepted_append {events : List TrackerEvent}
    (noConnect : events.filterMap acceptedConnect = []) :
    lastAccepted (log ++ events) = lastAccepted log := by
  rw [lastAccepted, List.filterMap_append, noConnect, List.append_nil]
  rfl

theorem lastAccepted_accepted (events : List TrackerEvent)
    (datagram : List UInt8) :
    lastAccepted (log ++ (events ++ [.accepted .connect datagram])) =
      some datagram := by
  rw [lastAccepted, ← List.append_assoc, List.filterMap_append]
  exact List.getLast?_concat

theorem connectionIdOf_bytes {datagram : List UInt8}
    (long : 16 ≤ datagram.length) :
    networkBytes 8 (connectionIdOf datagram).toUInt64.toNat =
      (datagram.drop 8).take 8 := by
  have eight : ((datagram.drop 8).take 8).length = 8 := by
    rw [List.length_take, List.length_drop]
    omega
  have bound := bigEndian_lt ((datagram.drop 8).take 8)
  have bytes := networkBytes_bigEndian ((datagram.drop 8).take 8)
  rw [eight] at bound bytes
  rw [connectionIdOf, UInt64.toUInt64_toInt64,
    UInt64.toNat_ofNat_of_lt' bound, bytes]

theorem echoes_same {request : TrackerRequest} {message datagram : List UInt8}
    {code : ExitCode} {attempt : Attempt} {transactionId : Int32}
    (sent : (message.drop 12).take 4 = store32 order transactionId.toUInt32)
    (echoes : Echoes
      (log ++ [.sent request message code, .received datagram])) :
    rawField order (attempt.array datagram) 4 = transactionId := by
  rcases echoes with ⟨front, _, other, _, bytes, split, long, echoed⟩
  obtain ⟨_, last⟩ := List.append_inj' split rfl
  simp only [List.cons.injEq, TrackerEvent.sent.injEq,
    TrackerEvent.received.injEq, and_true] at last
  rcases last with ⟨⟨_, rfl, _⟩, rfl⟩
  exact rawField_echo echoed sent long

/-- The log of an exchange whose datagram was compared. -/
theorem idsKept_compared {request : TrackerRequest}
    {message datagram : List UInt8} {code : ExitCode} {same : Bool}
    (orderly : Orderly IdsKept log)
    (permitted : IdsKept log (.sent request message code))
    (echoed : Echoes
      (log ++ [.sent request message code, .received datagram]) →
        same = true) :
    Orderly IdsKept (log ++ [.sent request message code,
      .received datagram, .compared same]) := by
  have received : IdsKept (log ++ [.sent request message code])
      (.received datagram) :=
    trivial
  have second := orderly_snoc (orderly_snoc orderly permitted) received
  rw [List.append_assoc] at second
  have compared : IdsKept
      (log ++ [.sent request message code, .received datagram])
      (.compared same) :=
    echoed
  have third := orderly_snoc second compared
  rwa [List.append_assoc] at third

theorem idsKept_accepted {request : TrackerRequest}
    {message datagram : List UInt8} {code : ExitCode}
    (orderly : Orderly IdsKept log)
    (permitted : IdsKept log (.sent request message code)) :
    Orderly IdsKept (log ++ [.sent request message code,
      .received datagram, .compared true, .accepted request datagram]) := by
  have compared : Orderly IdsKept (log ++ [.sent request message code,
      .received datagram, .compared true]) :=
    idsKept_compared orderly permitted fun _ => rfl
  have accepted : IdsKept (log ++ [.sent request message code,
      .received datagram, .compared true]) (.accepted request datagram) :=
    trivial
  have whole := orderly_snoc compared accepted
  rwa [List.append_assoc] at whole

theorem idsKept_silent {request : TrackerRequest} {message : List UInt8}
    {code : ExitCode} (orderly : Orderly IdsKept log)
    (permitted : IdsKept log (.sent request message code)) :
    Orderly IdsKept (log ++ [.sent request message code, .timedOut]) := by
  have silent : IdsKept (log ++ [.sent request message code]) .timedOut :=
    trivial
  have second := orderly_snoc (orderly_snoc orderly permitted) silent
  rwa [List.append_assoc] at second

theorem announceRequest_repeats {run : TrackerRun} (holds : HoldsIds run)
    (infoHashBytes : List UInt8) (code : ExitCode) :
    IdsKept run.log (.sent .announce
      (run.announceRequest order infoHashBytes) code) := by
  refine ⟨fun datagram last long => ?_, ?_⟩
  · have kept := holds.connectionId datagram last long
    rw [TrackerRun.announceRequest, announceMessage_connectionId, kept,
      connectionIdOf_bytes long]
  · rw [TrackerRun.announceRequest, announceMessage_action]
    decide

/-- The state keeps its ids over events that accept no connect response. -/
theorem HoldsIds.keeps {run after : TrackerRun} {events : List TrackerEvent}
    (holds : HoldsIds run) (log : after.log = run.log ++ events)
    (connectionId : after.tracker.connectionId = run.tracker.connectionId)
    (orderly : Orderly IdsKept (run.log ++ events))
    (noConnect : events.filterMap acceptedConnect = []) :
    HoldsIds after := by
  refine ⟨log ▸ orderly, fun datagram last long => ?_⟩
  rw [log, lastAccepted_append noConnect] at last
  rw [connectionId]
  exact holds.connectionId datagram last long

theorem connectionIdOf_array {attempt : Attempt} {datagram : List UInt8}
    (long : 16 ≤ datagram.length) :
    (connectFields order (attempt.array datagram)).connectionId =
      connectionIdOf datagram := by
  rw [Attempt.array, connectFields_append long]
  rfl

theorem holdsIds_connect {run after : TrackerRun}
    {answer : Exec (Verdict Unit)} (holds : HoldsIds run)
    (outcome : ConnectOutcome order run (answer, after)) :
    HoldsIds after := by
  have sent := connectMessage_id order (run.next .connect).transactionId
  cases outcome with
  | silent noReply =>
      exact holds.keeps rfl rfl (idsKept_silent holds.log trivial) rfl
  | refused arrived response decoded =>
      have fields := trackerConnectResponse_fields decoded
      refine holds.keeps rfl rfl
        (idsKept_compared holds.log trivial fun echoes => ?_) rfl
      rw [fields, beq_iff_eq]
      exact (echoes_same sent echoes).symm
  | @accepted reply arrived response decoded action same =>
      have fields := trackerConnectResponse_fields decoded
      refine ⟨idsKept_accepted holds.log trivial,
        fun datagram last long => ?_⟩
      have told := @lastAccepted_accepted run.log
        [.sent .connect
            (connectMessage order (run.next .connect).transactionId)
            (run.next .connect).code, .received (arrives reply),
          .compared true] (arrives reply)
      cases Option.some.inj (told.symm.trans last)
      have kept := @connectionIdOf_array order (run.next .connect)
        (arrives reply) long
      rwa [← fields] at kept

theorem holdsIds_announce {hash : CString} {run after : TrackerRun}
    {answer : Exec (Verdict (List AnnouncedPeer × List UInt8))}
    (holds : HoldsIds run)
    (outcome : AnnounceOutcome order hash run (answer, after)) :
    HoldsIds after := by
  cases outcome with
  | unsent stop =>
      exact ⟨holds.log, holds.connectionId⟩
  | silent read noReply =>
      exact holds.keeps rfl rfl (idsKept_silent holds.log
        (announceRequest_repeats holds _ _)) rfl
  | refused read arrived response decoded =>
      rcases trackerAnnounceResponse_fields (arrives_lt _) decoded with
        ⟨copies, fields⟩
      refine holds.keeps rfl rfl (idsKept_compared holds.log
        (announceRequest_repeats holds _ _) fun echoes => ?_) rfl
      rw [fields, beq_iff_eq]
      exact (echoes_same (announceMessage_id ..) echoes).symm
  | accepted read arrived response decoded action same =>
      exact holds.keeps rfl rfl (idsKept_accepted holds.log
        (announceRequest_repeats holds _ _)) rfl

theorem holdsIds_invariant (order : ByteOrder) (hash : CString) :
    TalkInvariant order hash HoldsIds fun _ _ => True where
  quiet := fun quiet holds =>
    holds.keeps (quiet.log.trans (List.append_nil _).symm) quiet.connectionId
      ((List.append_nil _).symm ▸ holds.log) rfl
  connect := holdsIds_connect
  announce := fun holds _ outcome => holdsIds_announce holds outcome
  ready := fun _ _ _ => trivial
  visit := fun _ holds _ =>
    ⟨holds.keeps (List.append_nil _).symm rfl
      ((List.append_nil _).symm ▸ holds.log) rfl, trivial⟩
  handshake := fun holds _ =>
    ⟨holds.keeps rfl rfl (orderly_snoc holds.log trivial) rfl, trivial⟩

end Ids

/-- In every conversation the ids survive the wire. -/
theorem trackerCalls_keepIds (order : ByteOrder) (hash : CString)
    (depth : Nat) (calls : List TrackerRequest) (future : TrackerFuture) :
    Orderly IdsKept
      ((trackerCalls order hash depth calls).from future.start).2.log := by
  have start : HoldsIds future.start :=
    ⟨orderly_nil, fun _ last _ => nomatch last⟩
  exact ((holdsIds_invariant order hash).trackerCalls depth calls start).log

end UvgTorrent
