import UvgTorrent.Tracker.AnnounceRecords
import UvgTorrent.Tracker.Exchange

/-!
# What an exchange with a tracker comes to

Every outcome of one exchange with its events, and the induction over the
attempts and the peers that an invariant of the conversation needs.
-/

namespace UvgTorrent

open CProgram CText CArray MachineInt

/-! ## The socket -/

section Socket

theorem socketConnect_success {this after : Descriptors.Socket}
    {outcome : Descriptors.Outcome}
    (connected : (Descriptors.socketConnect outcome).from this =
      (.ok .success, after)) :
    ∃ fd, after.sockDesc = some fd := by
  cases opening : outcome.socket with
  | none =>
      simp only [Descriptors.socketConnect, Descriptors.socketConnectError,
        Descriptors.record, bind_from, modifyState_from, pure_from,
        opening] at connected
      cases connected
  | some fd =>
      cases known : outcome.gethostbyname with
      | false =>
          have stopped := @Descriptors.socketConnect_exits this outcome fd
            opening known
          rw [connected] at stopped
          cases stopped
      | true =>
          cases passed : Descriptors.passes this.type outcome with
          | true =>
              simp only [Descriptors.socketConnect, Descriptors.record,
                bind_from, modifyState_from, getState_from, pure_from,
                opening, known, passed, if_true] at connected
              cases connected
              exact ⟨fd, rfl⟩
          | false =>
              simp only [Descriptors.socketConnect,
                Descriptors.socketConnectError, Descriptors.record,
                bind_from, modifyState_from, getState_from, pure_from,
                opening, known, passed, if_true, if_false,
                Bool.false_eq_true] at connected
              cases connected

/-- Nothing was said between two states of a conversation. -/
structure Quiet (run after : TrackerRun) : Prop where
  log : after.log = run.log
  connected : after.tracker.connected = run.tracker.connected
  connectionId : after.tracker.connectionId = run.tracker.connectionId
  coming : after.coming = run.coming
  visits : after.visits = run.visits
  visited : after.visited = run.visited

theorem trackerSocketConnect_quiet {run after : TrackerRun}
    {answer : Exec ExitCode}
    (ran : trackerSocketConnect.from run = (answer, after)) :
    Quiet run after := by
  simp only [trackerSocketConnect, bind_from, getState_from, setState_from,
    liftExec_from] at ran
  cases ran
  exact ⟨rfl, rfl, rfl, rfl, rfl, rfl⟩

theorem trackerSocketConnect_open {run after : TrackerRun}
    (ran : trackerSocketConnect.from run = (.ok .success, after)) :
    ∃ fd, after.tracker.descriptor = some fd := by
  simp only [trackerSocketConnect, bind_from, getState_from, setState_from,
    liftExec_from] at ran
  obtain ⟨succeeded, rfl⟩ := Prod.mk.inj ran
  exact socketConnect_success (Prod.ext succeeded rfl)

end Socket

/-! ## The outcomes -/

/-- The id of the request of an attempt. -/
def Attempt.transactionId (attempt : Attempt) : Int32 :=
  transactionIdOf attempt.rand

/-- The state once an attempt has begun and the id of its request is made. -/
def TrackerRun.began (run : TrackerRun) (request : TrackerRequest) :
    TrackerRun :=
  { run with
    tracker := { run.tracker with
      lastTransactionId := (run.coming request).head.transactionId }
    coming := fun other =>
      if other = request then (run.coming other).tail
      else run.coming other }

/-- The attempt for the next request. -/
def TrackerRun.next (run : TrackerRun) (request : TrackerRequest) :
    Attempt :=
  (run.coming request).head

/-- The array that a datagram has been received into. -/
def Attempt.array (attempt : Attempt) (datagram : List UInt8) :
    List UInt8 :=
  datagram ++ (attempt.out.block replyBufferSize).cells.drop
    datagram.length

/-- A datagram as it arrives. -/
def arrives (reply : List UInt8) : List UInt8 :=
  reply.take replyBufferSize

/-- Every outcome of the exchange of a connect request. -/
inductive ConnectOutcome (order : ByteOrder) (run : TrackerRun) :
    Exec (Verdict Unit) × TrackerRun → Prop
  | silent (noReply : (run.next .connect).reply = none) :
      ConnectOutcome order run (.ok .timedOut,
        (run.began .connect).record
          [.sent .connect
              (connectMessage order (run.next .connect).transactionId)
              (run.next .connect).code, .timedOut])
  | refused {reply : List UInt8}
      (arrived : (run.next .connect).reply = some reply)
      (response : TrackerConnectResponse)
      (decoded : trackerConnectResponseInit order
        ((run.next .connect).array (arrives reply)) = .ok response)
      (fails : ¬ (response.action = 0 ∧
        (run.next .connect).transactionId = response.transactionId)) :
      ConnectOutcome order run (.ok .refused,
        (run.began .connect).record
          [.sent .connect
              (connectMessage order (run.next .connect).transactionId)
              (run.next .connect).code, .received (arrives reply),
            .compared
              ((run.next .connect).transactionId == response.transactionId)])
  | accepted {reply : List UInt8}
      (arrived : (run.next .connect).reply = some reply)
      (response : TrackerConnectResponse)
      (decoded : trackerConnectResponseInit order
        ((run.next .connect).array (arrives reply)) = .ok response)
      (action : response.action = 0)
      (same : response.transactionId = (run.next .connect).transactionId) :
      ConnectOutcome order run (.ok (.accepted ()),
        { run.began .connect with
          tracker := { (run.began .connect).tracker with
            connected := true
            attempts := 0
            connectionId := response.connectionId }
          log := run.log ++
            [.sent .connect
                (connectMessage order (run.next .connect).transactionId)
                (run.next .connect).code, .received (arrives reply),
              .compared true, .accepted .connect (arrives reply)] })

/-- The announce request that is sent with the bytes of a hash. -/
def TrackerRun.announceRequest (run : TrackerRun) (order : ByteOrder)
    (infoHashBytes : List UInt8) : List UInt8 :=
  announceMessage order run.tracker.connectionId
    (run.next .announce).transactionId infoHashBytes
    (announcePeerId.take 20)

/-- The text of the hash, and the bytes that are made of it. -/
structure HashRead (hash : CString) (run : TrackerRun)
    (infoHash infoHashBytes : List UInt8) : Prop where
  extracted : extractInfoHash hash = .ok infoHash
  scanned : scanInfoHash (run.next .announce).infoHashBytes infoHash =
    .ok infoHashBytes

/-- Every outcome of the exchange of an announce request. -/
inductive AnnounceOutcome (order : ByteOrder) (hash : CString)
    (run : TrackerRun) :
    Exec (Verdict (List AnnouncedPeer × List UInt8)) × TrackerRun → Prop
  | unsent (stop : Stop)
      (unready : run.tracker.descriptor = none ∨
        ∀ infoHash infoHashBytes,
          ¬ HashRead hash run infoHash infoHashBytes) :
      AnnounceOutcome order hash run (.error stop, run.began .announce)
  | silent {infoHash infoHashBytes : List UInt8}
      (read : HashRead hash run infoHash infoHashBytes)
      (noReply : (run.next .announce).reply = none)
      (isOpen : ∃ fd, run.tracker.descriptor = some fd) :
      AnnounceOutcome order hash run (.ok .timedOut,
        (run.began .announce).record
          [.sent .announce (run.announceRequest order infoHashBytes)
            (run.next .announce).code, .timedOut])
  | refused {infoHash infoHashBytes reply : List UInt8}
      (read : HashRead hash run infoHash infoHashBytes)
      (arrived : (run.next .announce).reply = some reply)
      (response : TrackerAnnounceResponse)
      (decoded : trackerAnnounceResponseInit order
        ((run.next .announce).array (arrives reply))
        (arrives reply).length = .ok response)
      (fails : ¬ (response.action = 1 ∧
        (run.next .announce).transactionId = response.transactionId))
      (isOpen : ∃ fd, run.tracker.descriptor = some fd) :
      AnnounceOutcome order hash run (.ok .refused,
        (run.began .announce).record
          [.sent .announce (run.announceRequest order infoHashBytes)
            (run.next .announce).code, .received (arrives reply),
            .compared
              ((run.next .announce).transactionId == response.transactionId)])
  | accepted {infoHash infoHashBytes reply : List UInt8}
      (read : HashRead hash run infoHash infoHashBytes)
      (arrived : (run.next .announce).reply = some reply)
      (response : TrackerAnnounceResponse)
      (decoded : trackerAnnounceResponseInit order
        ((run.next .announce).array (arrives reply))
        (arrives reply).length = .ok response)
      (action : response.action = 1)
      (same : response.transactionId = (run.next .announce).transactionId)
      (isOpen : ∃ fd, run.tracker.descriptor = some fd) :
      AnnounceOutcome order hash run
        (.ok (.accepted (response.peers.values, infoHash)),
        { run.began .announce with
          tracker := { (run.began .announce).tracker with attempts := 0 }
          log := run.log ++
            [.sent .announce (run.announceRequest order infoHashBytes)
              (run.next .announce).code, .received (arrives reply),
              .compared true, .accepted .announce (arrives reply)] })

section Exchange

variable {run : TrackerRun} {order : ByteOrder} {fd : Int}

/-- The start of an exchange. -/
theorem begins_from {α : Type} (run : TrackerRun) (request : TrackerRequest)
    (rest : Attempt → Prog TrackerRun α) :
    (do
      let attempt ← takeAttempt request
      trackerGenerateTransID attempt.rand
      rest attempt : Prog TrackerRun α).from run =
        (rest (run.next request)).from (run.began request) :=
  rfl

theorem trackerSend_from (isOpen : run.tracker.descriptor = some fd)
    (request : TrackerRequest) (attempt : Attempt)
    (message : List UInt8) :
    (trackerSend request attempt message).from run =
      (.ok attempt.code,
        run.record [.sent request message attempt.code]) := by
  simp only [trackerSend, bind_from, getState_from, isOpen, recordEvent,
    modifyState_from, pure_from]

theorem array_length (attempt : Attempt) (reply : List UInt8) :
    (attempt.array (arrives reply)).length = replyBufferSize := by
  rw [Attempt.array, arrives, List.length_append, List.length_drop,
    Surroundings.block_length, List.length_take]
  omega

theorem trackerReceive_silent (isOpen : run.tracker.descriptor = some fd)
    {attempt : Attempt} (noReply : attempt.reply = none) :
    (trackerReceive attempt).from run =
      (.ok none, run.record [.timedOut]) := by
  simp only [trackerReceive, bind_from, getState_from, isOpen, noReply,
    recordEvent, modifyState_from, pure_from]

theorem trackerReceive_arrived (isOpen : run.tracker.descriptor = some fd)
    {attempt : Attempt} {reply : List UInt8}
    (arrived : attempt.reply = some reply) :
    (trackerReceive attempt).from run =
      (.ok (some (arrives reply, attempt.array (arrives reply))),
        run.record [.received (arrives reply)]) := by
  have inside : 0 + (arrives reply).length ≤
      (attempt.out.block replyBufferSize).cells.length := by
    rw [Surroundings.block_length, arrives, List.length_take]
    omega
  have copied := Buffer.copyIn_of_le inside
  rw [List.take_zero, List.nil_append, Nat.zero_add] at copied
  unfold arrives at copied ⊢
  simp only [trackerReceive, bind_from, getState_from, isOpen, arrived,
    recordEvent, modifyState_from, liftExec_from, copied, pure_from,
    Attempt.array]

theorem checkResponse_from (run : TrackerRun)
    (wanted action transactionId : Int32) :
    (checkResponse wanted action transactionId).from run =
      (.ok (action == wanted &&
        run.tracker.lastTransactionId == transactionId),
        run.record [.compared
          (run.tracker.lastTransactionId == transactionId)]) := by
  simp only [checkResponse, bind_from, getState_from, recordEvent,
    modifyState_from, pure_from]

theorem record_tracker (run : TrackerRun) (events : List TrackerEvent) :
    (run.record events).tracker = run.tracker :=
  rfl

theorem record_record (run : TrackerRun)
    (first second : List TrackerEvent) :
    (run.record first).record second = run.record (first ++ second) := by
  simp only [TrackerRun.record, List.append_assoc]

theorem began_id (run : TrackerRun) (request : TrackerRequest) :
    (run.began request).tracker.lastTransactionId =
      (run.next request).transactionId :=
  rfl

theorem trackerConnectExchange_outcome
    (isOpen : run.tracker.descriptor = some fd) :
    ConnectOutcome order run ((trackerConnectExchange order).from run) := by
  rcases trackerConnectRequestInit_bytes (run.next .connect).packet.packet
    order (run.next .connect).transactionId with ⟨request, prepared, bytes⟩
  have built : (liftExec (trackerConnectRequestInit
      (run.next .connect).packet.packet order
      (run.next .connect).transactionId) :
        Prog TrackerRun TrackerConnectRequest).from (run.began .connect) =
          (.ok request, run.began .connect) := by
    rw [liftExec_from, prepared]
  have began : (run.began .connect).tracker.descriptor = some fd := isOpen
  have sends := trackerSend_from began .connect (run.next .connect)
    request.bytes
  rw [bytes] at sends
  have sentOpen : ((run.began .connect).record
      [.sent .connect (connectMessage order (run.next .connect).transactionId)
        (run.next .connect).code]).tracker.descriptor = some fd :=
    isOpen
  rw [trackerConnectExchange, begins_from, bind_from_ok (getState_from _),
    began_id, bind_from_ok built, bytes, bind_from_ok sends]
  cases replied : (run.next .connect).reply with
  | none =>
      rw [bind_from_ok (trackerReceive_silent sentOpen replied)]
      simp only [pure_from, record_record, List.cons_append,
        List.nil_append]
      exact .silent replied
  | some reply =>
      have decoded := @trackerConnectResponseInit_of_le order
        ((run.next .connect).array (arrives reply))
        (by rw [array_length]; decide)
      rw [bind_from_ok (trackerReceive_arrived sentOpen replied)]
      simp only []
      rw [bind_from_ok (by rw [liftExec_from, decoded]),
        bind_from_ok (checkResponse_from _ _ _ _), record_record,
        record_record, record_tracker, began_id]
      by_cases accepts : (connectFields order
          ((run.next .connect).array (arrives reply))).action = 0 ∧
          (run.next .connect).transactionId = (connectFields order
            ((run.next .connect).array (arrives reply))).transactionId
      · have passes : ((connectFields order
            ((run.next .connect).array (arrives reply))).action == 0 &&
            (run.next .connect).transactionId == (connectFields order
              ((run.next .connect).array (arrives reply))).transactionId) =
              true := by
          simpa using accepts
        have same : ((run.next .connect).transactionId == (connectFields order
            ((run.next .connect).array (arrives reply))).transactionId) =
              true := by
          simpa using accepts.2
        rw [if_pos passes, same]
        simp only [updateTracker, recordEvent, bind_from, modifyState_from,
          pure_from, TrackerRun.record, List.append_assoc,
          List.cons_append, List.nil_append]
        exact .accepted replied _ decoded accepts.1 accepts.2.symm
      · rw [if_neg (by simpa using accepts)]
        exact .refused replied _ decoded accepts

/-- The response to a datagram in its array is always decoded. -/
theorem announce_decodes (order : ByteOrder) (attempt : Attempt)
    (reply : List UInt8) :
    ∃ response, trackerAnnounceResponseInit order
      (attempt.array (arrives reply)) (arrives reply).length =
        .ok response := by
  have size : replyBufferSize = 2048 := rfl
  have length := array_length attempt reply
  have cut : (arrives reply).length ≤ replyBufferSize := by
    rw [arrives, List.length_take]
    omega
  have behind : ((attempt.array (arrives reply)).drop 20).length = 2028 := by
    rw [List.length_drop, length, size]
  rcases @countRecords_answers ((arrives reply).length - 20)
    ((attempt.array (arrives reply)).drop 20) (by omega)
    (by rw [behind]; decide) with ⟨copies, counted⟩
  exact ⟨_, by
    rw [trackerAnnounceResponseInit_of_le (by omega) (by omega), counted]
    rfl⟩

theorem trackerSend_closed (isClosed : run.tracker.descriptor = none)
    (request : TrackerRequest) (attempt : Attempt)
    (message : List UInt8) :
    (trackerSend request attempt message).from run =
      (.error .nullPointer, run) := by
  simp only [trackerSend, bind_from, getState_from, isClosed, liftExec_from]

/-- The exchange from its datagram on. -/
theorem announce_checked {hash : CString}
    {infoHash infoHashBytes reply : List UInt8}
    (read : HashRead hash run infoHash infoHashBytes)
    (replied : (run.next .announce).reply = some reply)
    (isOpen : ∃ fd, run.tracker.descriptor = some fd) :
    AnnounceOutcome order hash run ((do
      let response ← liftExec (trackerAnnounceResponseInit order
        ((run.next .announce).array (arrives reply))
        (arrives reply).length)
      if ← checkResponse 1 response.action response.transactionId then
        updateTracker fun tracker => { tracker with attempts := 0 }
        recordEvent (.accepted .announce (arrives reply))
        pure (.accepted (response.peers.values, infoHash))
      else
        pure .refused : Prog TrackerRun
          (Verdict (List AnnouncedPeer × List UInt8))).from
      (((run.began .announce).record
        [.sent .announce (run.announceRequest order infoHashBytes)
          (run.next .announce).code]).record
        [.received (arrives reply)])) := by
  rcases announce_decodes order (run.next .announce) reply with
    ⟨response, decoded⟩
  rw [bind_from_ok (by rw [liftExec_from, decoded]),
    bind_from_ok (checkResponse_from _ _ _ _), record_record,
    record_record, record_tracker, began_id]
  by_cases accepts : response.action = 1 ∧
      (run.next .announce).transactionId = response.transactionId
  · have passes : (response.action == 1 &&
        (run.next .announce).transactionId ==
          response.transactionId) = true := by
      simpa using accepts
    have same : ((run.next .announce).transactionId ==
        response.transactionId) = true := by
      simpa using accepts.2
    rw [if_pos passes, same]
    simp only [updateTracker, recordEvent, bind_from, modifyState_from,
      pure_from, TrackerRun.record, List.append_assoc, List.cons_append,
      List.nil_append]
    exact .accepted read replied response decoded accepts.1
      accepts.2.symm isOpen
  · rw [if_neg (by simpa using accepts)]
    exact .refused read replied response decoded accepts isOpen

theorem trackerAnnounceExchange_outcome (order : ByteOrder) (hash : CString)
    (run : TrackerRun) :
    AnnounceOutcome order hash run
      ((trackerAnnounceExchange order hash).from run) := by
  rw [trackerAnnounceExchange, begins_from]
  cases extracted : extractInfoHash hash with
  | error stop =>
      rw [bind_from_error (liftExec_from (.error stop) _)]
      refine .unsent stop (.inr fun infoHash infoHashBytes read => ?_)
      cases read.extracted.symm.trans extracted
  | ok infoHash =>
      rw [bind_from_ok (liftExec_from (.ok infoHash) _)]
      cases scanned :
          scanInfoHash (run.next .announce).infoHashBytes infoHash with
      | error stop =>
          rw [bind_from_error (liftExec_from (.error stop) _)]
          refine .unsent stop (.inr fun other infoHashBytes read => ?_)
          cases read.extracted.symm.trans extracted
          cases read.scanned.symm.trans scanned
      | ok infoHashBytes =>
          have read : HashRead hash run infoHash infoHashBytes :=
            ⟨extracted, scanned⟩
          rcases trackerAnnounceRequestInit_bytes
            (run.next .announce).packet order run.tracker.connectionId
            (run.next .announce).transactionId (scanPairs_length scanned)
            (by decide : 20 ≤ announcePeerId.length) with
            ⟨request, prepared, bytes⟩
          have built : (liftExec (trackerAnnounceRequestInit
              (run.next .announce).packet order run.tracker.connectionId
              (run.next .announce).transactionId infoHashBytes announcePeerId) :
                Prog TrackerRun TrackerAnnounceRequest).from
                  (run.began .announce) =
                (.ok request, run.began .announce) := by
            rw [liftExec_from, prepared]
          have kept : (run.began .announce).tracker.connectionId =
              run.tracker.connectionId :=
            rfl
          rw [bind_from_ok (liftExec_from (.ok infoHashBytes) _),
            bind_from_ok (getState_from _), began_id, kept,
            bind_from_ok built]
          cases isOpen : (run.began .announce).tracker.descriptor with
          | none =>
              rw [bind_from_error (trackerSend_closed isOpen _ _ _)]
              exact .unsent .nullPointer (.inl isOpen)
          | some fd =>
              have sentOpen : ((run.began .announce).record
                  [.sent .announce request.bytes
                    (run.next .announce).code]).tracker.descriptor =
                      some fd :=
                isOpen
              rw [bind_from_ok (trackerSend_from isOpen _ _ _)]
              cases replied : (run.next .announce).reply with
              | none =>
                  rw [bind_from_ok (trackerReceive_silent sentOpen replied),
                    bytes]
                  simp only [pure_from, record_record, List.cons_append,
                    List.nil_append]
                  exact .silent read replied ⟨fd, isOpen⟩
              | some reply =>
                  rw [bind_from_ok
                    (trackerReceive_arrived sentOpen replied), bytes]
                  exact announce_checked read replied ⟨fd, isOpen⟩

end Exchange

/-! ## Invariants of a conversation -/

/-- The state behind a round of the loop over the peers. -/
def TrackerRun.visitedNext (run : TrackerRun) (infoHash : List UInt8)
    (depth : Nat) : TrackerRun :=
  { run with
    visits := run.visits.tail
    visited := run.visited ++
      [((visitPeerOn infoHash depth run.visits.head).from
        run.visits.head.peer).2] }

theorem visitNext_from (infoHash : List UInt8) (depth : Nat)
    (run : TrackerRun) :
    (visitNext infoHash depth).from run =
      (((visitPeerOn infoHash depth run.visits.head).from
          run.visits.head.peer).1, run.visitedNext infoHash depth) :=
  rfl

/-- What every outcome of an exchange preserves.  `Ready infoHash` is what an
accepted announce response leaves for the handshakes that follow it. -/
structure TalkInvariant (order : ByteOrder) (hash : CString)
    (Holds : TrackerRun → Prop) (Ready : List UInt8 → TrackerRun → Prop) :
    Prop where
  quiet : ∀ {run after}, Quiet run after → Holds run → Holds after
  connect : ∀ {run answer after}, Holds run →
    ConnectOutcome order run (answer, after) → Holds after
  announce : ∀ {run answer after}, Holds run →
    run.tracker.connected = true →
    AnnounceOutcome order hash run (answer, after) → Holds after
  ready : ∀ {run peers infoHash after}, Holds run →
    run.tracker.connected = true →
    AnnounceOutcome order hash run (.ok (.accepted (peers, infoHash)), after) →
    Ready infoHash after
  visit : ∀ {infoHash run} (depth : Nat), Holds run → Ready infoHash run →
    Holds (run.visitedNext infoHash depth) ∧
      Ready infoHash (run.visitedNext infoHash depth)
  handshake : ∀ {infoHash run}, Holds run → Ready infoHash run →
    Holds (run.record [.handshake infoHash]) ∧
      Ready infoHash (run.record [.handshake infoHash])

namespace TalkInvariant

variable {order : ByteOrder} {hash : CString} {Holds : TrackerRun → Prop}
  {Ready : List UInt8 → TrackerRun → Prop}

theorem attemptsChanged (talk : TalkInvariant order hash Holds Ready)
    (change : Nat → Nat) :
    Preserves Holds Holds (updateTracker fun tracker =>
      { tracker with attempts := change tracker.attempts }) :=
  Contract.modifyState fun run holds =>
    talk.quiet (show Quiet run _ from ⟨rfl, rfl, rfl, rfl, rfl, rfl⟩) holds

theorem giveUp (talk : TalkInvariant order hash Holds Ready) :
    Preserves Holds Holds trackerGiveUp :=
  (talk.attemptsChanged fun _ => 0).bind fun _ => Preserves.pure _

theorem tryAgain (talk : TalkInvariant order hash Holds Ready) :
    Preserves Holds Holds trackerTryAgain :=
  talk.attemptsChanged fun attempts => attempts + 1

theorem connectAttempt (talk : TalkInvariant order hash Holds Ready) :
    Preserves Holds Holds (trackerConnectAttempt order) := by
  apply Preserves.of_ends
  intro run holds
  rw [trackerConnectAttempt, bind_from]
  cases connecting : trackerSocketConnect.from run with
  | mk answer middle =>
      have between := talk.quiet (trackerSocketConnect_quiet connecting) holds
      cases answer with
      | error stop =>
          exact between
      | ok code =>
          cases code with
          | failure =>
              exact between
          | success =>
              rcases trackerSocketConnect_open connecting with ⟨fd, isOpen⟩
              exact talk.connect between
                (trackerConnectExchange_outcome isOpen)

theorem connectFrom (talk : TalkInvariant order hash Holds Ready)
    (depth : Nat) :
    Preserves Holds Holds (trackerConnectFrom order depth) := by
  induction depth with
  | zero =>
      exact Preserves.liftExec (fun _ holds => holds) _
  | succ depth inductionHypothesis =>
      rw [trackerConnectFrom]
      apply talk.connectAttempt.bind
      intro verdict
      cases verdict with
      | accepted answer =>
          exact Preserves.pure _
      | refused =>
          exact talk.giveUp
      | timedOut =>
          apply Preserves.of_ends
          intro run holds
          rw [bind_from_ok (getState_from run)]
          split
          · exact Contract.ends
              (talk.tryAgain.bind fun _ => inductionHypothesis) holds
          · exact Contract.ends talk.giveUp holds

/-- `Tracker_connect` preserves the invariant. -/
theorem trackerConnect (talk : TalkInvariant order hash Holds Ready)
    {run : TrackerRun} (holds : Holds run) :
    Holds ((trackerConnect order).from run).2 := by
  rw [UvgTorrent.trackerConnect, bind_from_ok (getState_from run)]
  exact Contract.ends (talk.connectFrom run.tracker.calls) holds

theorem visitAnnounced (talk : TalkInvariant order hash Holds Ready)
    {infoHash : List UInt8} {depth : Nat} {peers : List AnnouncedPeer}
    {run : TrackerRun} (holds : Holds run) (ready : Ready infoHash run) :
    Holds ((visitAnnounced infoHash depth peers).from run).2 := by
  induction peers generalizing run with
  | nil =>
      exact holds
  | cons peer rest inductionHypothesis =>
      have started := talk.handshake holds ready
      have event : (recordEvent (.handshake infoHash)).from run =
          (.ok (), run.record [.handshake infoHash]) :=
        rfl
      have visited := talk.visit depth started.1 started.2
      rw [UvgTorrent.visitAnnounced, bind_from_ok event, bind_from,
        visitNext_from]
      cases ((visitPeerOn infoHash depth
          (run.record [.handshake infoHash]).visits.head).from
            (run.record [.handshake infoHash]).visits.head.peer).1 with
      | error stop => exact visited.1
      | ok value => exact inductionHypothesis visited.1 visited.2

theorem announceFrom (talk : TalkInvariant order hash Holds Ready)
    (depth rounds : Nat) {run : TrackerRun} (holds : Holds run) :
    Holds ((trackerAnnounceFrom order hash depth rounds).from run).2 := by
  induction rounds generalizing run with
  | zero =>
      exact holds
  | succ rounds inductionHypothesis =>
      rw [trackerAnnounceFrom, bind_from_ok (getState_from run)]
      cases connected : run.tracker.connected with
      | false =>
          exact holds
      | true =>
          rw [if_pos rfl, bind_from]
          have outcome := trackerAnnounceExchange_outcome order hash run
          cases exchanged :
              (trackerAnnounceExchange order hash).from run with
          | mk answer after =>
              rw [exchanged] at outcome
              have reached := talk.announce holds connected outcome
              cases answer with
              | error stop =>
                  exact reached
              | ok verdict =>
                  cases verdict with
                  | accepted found =>
                      have ready := talk.ready holds connected outcome
                      have visits : Holds ((UvgTorrent.visitAnnounced
                          found.2 depth found.1).from after).2 :=
                        talk.visitAnnounced reached ready
                      exact bind_ends visits fun _ _ further => further
                  | refused =>
                      exact Contract.ends talk.giveUp reached
                  | timedOut =>
                      simp only []
                      rw [bind_from_ok (getState_from after)]
                      split
                      · exact bind_ends (talk.tryAgain.ends reached)
                          fun _ _ again => bind_ends
                            (inductionHypothesis again)
                            fun _ _ further => further
                      · exact reached

/-- `Tracker_announce` preserves the invariant. -/
theorem trackerAnnounce (talk : TalkInvariant order hash Holds Ready)
    (depth : Nat) {run : TrackerRun} (holds : Holds run) :
    Holds ((trackerAnnounce order hash depth).from run).2 := by
  rw [UvgTorrent.trackerAnnounce, bind_from_ok (getState_from run)]
  exact talk.announceFrom depth run.tracker.calls holds

end TalkInvariant

end UvgTorrent
