import Mathlib.Data.Stream.Init
import UvgTorrent.Tracker.ExchangeIds
import UvgTorrent.Tracker.PeerOrder
import UvgTorrent.Tracker.VisitEnds

/-!
# One info hash for trackers and peers

The text behind `urn:btih:` is decoded once for the announce request and once
for each handshake.  In a conversation both tell the twenty bytes that the
digits denote: the announce requests that go to the tracker, and among the
messages that go to a peer those that are handshakes.
-/

namespace UvgTorrent

open CProgram CText CArray MachineInt EventLog

/-- The bytes that the digits of a hash denote. -/
def InfoHash.bytes (infoHash : InfoHash) : List UInt8 :=
  networkBytes 20 (hexNumber infoHash.digits)

/-- A message that starts as a handshake does; the other messages to a peer
start with a length. -/
def IsHandshake (message : List UInt8) : Prop :=
  message.take 20 = 19 :: text "BitTorrent protocol"

/-- The bytes 28 to 47 of every handshake among the messages. -/
def HandshakesTell (bytes : List UInt8) (messages : List (List UInt8)) :
    Prop :=
  ∀ message ∈ messages, IsHandshake message →
    (message.drop 28).take 20 = bytes

/-- What is sent to a peer while it is visited: every handshake tells the
bytes, and there is one if the peer accepts the connection. -/
structure PeerTold (bytes : List UInt8) (peer visited : Peer) : Prop where
  handshakes : ∃ events, visited.socket.log = peer.socket.log ++ events ∧
    HandshakesTell bytes (messagesSent events) ∧
    ((∃ fd, peer.socket.connecting = .connected fd) →
      ∃ message ∈ messagesSent events, IsHandshake message)

/-- What is sent in a conversation: the bytes 16 to 35 of every announce
request, and the handshakes to the peers that have been visited. -/
structure AllTellHash (future : TrackerFuture) (bytes : List UInt8)
    (run : TrackerRun) : Prop where
  tracker : ∀ message code, .sent .announce message code ∈ run.log →
    (message.drop 16).take 20 = bytes
  peers : ∀ index visited, run.visited[index]? = some visited →
    PeerTold bytes (future.visits.get index).peer visited

/-! ## The messages to a peer -/

section Messages

variable {bytes : List UInt8} {front : List Event} {called : Prop}

/-- What has been sent behind the front of a log. -/
def Told (bytes : List UInt8) (front : List Event) (called : Prop)
    (socket : Socket) : Prop :=
  ∃ events, socket.log = front ++ events ∧
    HandshakesTell bytes (messagesSent events) ∧
    (called → ∃ message ∈ messagesSent events, IsHandshake message)

theorem Told.more {socket after : Socket} {events : List Event}
    (told : Told bytes front called socket)
    (log : after.log = socket.log ++ events)
    (further : HandshakesTell bytes (messagesSent events)) :
    Told bytes front called after := by
  rcases told with ⟨earlier, same, tells, calls⟩
  refine ⟨earlier ++ events, ?_, ?_, ?_⟩
  · rw [log, same, List.append_assoc]
  · intro message member
    rw [messagesSent_append] at member
    rcases List.mem_append.mp member with old | new
    · exact tells message old
    · exact further message new
  · intro isCalled
    rcases calls isCalled with ⟨message, member, isOne⟩
    rw [messagesSent_append]
    exact ⟨message, List.mem_append_left _ member, isOne⟩

theorem handshakesTell_none : HandshakesTell bytes [] := by
  intro message member
  cases member

theorem Told.record {socket : Socket}
    (told : Told bytes front called socket) (call : PeerCall)
    (code : ExitCode) :
    Told bytes front called (socket.record (.returned call code)) :=
  told.more rfl handshakesTell_none

theorem socketReceive_told (size : Int) :
    Preserves (Told bytes front called) (Told bytes front called)
      (socketReceive size) := by
  apply Preserves.of_ends
  intro socket told
  cases isOpen : socket.sockDesc with
  | none =>
      simp only [socketReceive, bind_from, getState_from, setState_from,
        isOpen, liftExec_from]
      exact told.more rfl handshakesTell_none
  | some fd =>
      rw [socketReceive_from isOpen]
      exact told.more rfl handshakesTell_none

/-- A message that is no handshake may be sent. -/
theorem socketSend_told {message : List UInt8}
    (other : ¬ IsHandshake message) :
    Preserves (Told bytes front called) (Told bytes front called)
      (socketSend message) := by
  have further : HandshakesTell bytes [message] := by
    intro sent member isOne
    rw [List.mem_singleton.mp member] at isOne
    exact absurd isOne other
  apply Preserves.of_ends
  intro socket told
  cases isOpen : socket.sockDesc with
  | none =>
      simp only [socketSend, bind_from, getState_from, setState_from,
        isOpen, liftExec_from]
      exact told.more rfl further
  | some fd =>
      rw [socketSend_from isOpen]
      exact told.more rfl further

theorem extended_notHandshake :
    ¬ IsHandshake peerExtendedHandshakeRequestInit.bytes := by
  rw [IsHandshake]
  decide +kernel

theorem piece_notHandshake :
    ¬ IsHandshake peerRequestPieceRequestInit.bytes := by
  rw [IsHandshake]
  decide +kernel

/-- The front of what is stored at the start of an array. -/
theorem storeAll_front {buffer : Buffer} {front : List UInt8}
    (inside : front.length ≤ buffer.cells.length) (rest : List UInt8) :
    (buffer.storeAll 0 (front ++ rest)).cells.take front.length = front := by
  rw [Buffer.storeAll_append, Nat.zero_add, Buffer.storeAll_take,
    Buffer.storeAll_of_le (by omega)]
  exact List.take_left

/-- The fifth byte of a request for a piece tells its kind. -/
theorem metadata_notHandshake (pieceNum : Nat) (utMetadata : Int) :
    ¬ IsHandshake (peerMetadataRequestInit pieceNum utMetadata).bytes := by
  intro isOne
  simp only [IsHandshake, peerMetadataRequestInit] at isOne
  generalize text "d8:msg_typei0e5:piecei" ++ decimal pieceNum ++
    text "ee" = message at isOne
  have split : bigEndian32 (message.length + 2) ++
      [20, toUInt8 utMetadata] ++ message =
        bigEndian32 (message.length + 2) ++ [20] ++
          toUInt8 utMetadata :: message := by
    rw [List.append_assoc, List.append_assoc]
    rfl
  have five : (bigEndian32 (message.length + 2) ++ [20]).length = 5 := by
    rw [List.length_append, bigEndian32_length, List.length_singleton]
  have front := @storeAll_front (Buffer.zeroed 31)
    (bigEndian32 (message.length + 2) ++ [20]) (by rw [five]; decide)
    (toUInt8 utMetadata :: message)
  have cut := congrArg (List.take 5) isOne
  rw [List.take_take, Nat.min_eq_left (by decide), split] at cut
  rw [five] at front
  have fifth : bigEndian32 (message.length + 2) ++ [20] =
      [19, 66, 105, 116] ++ [84] :=
    (front.symm.trans cut).trans (by decide)
  have last := List.append_inj_right fifth (bigEndian32_length _)
  exact absurd last (by decide)

/-- The front of a handshake is what makes it one. -/
theorem handshakeSent_isHandshake (infoHashBytes : List UInt8) :
    IsHandshake (handshakeSent infoHashBytes) := by
  have cut (buffer : Buffer) (index : Nat) (later : 20 ≤ index)
      (stored : List UInt8) :
      (buffer.storeAll index stored).cells.take 20 =
        buffer.cells.take 20 := by
    have taken := congrArg (List.take 20)
      (Buffer.storeAll_take buffer index stored)
    rwa [List.take_take, List.take_take, Nat.min_eq_left later] at taken
  simp only [IsHandshake, handshakeSent, handshakePacket]
  rw [cut _ 48 (by decide), cut _ 28 (by decide), cut _ 20 (by decide)]
  decide +kernel

end Messages

/-! ## The visit of a peer -/

section Visit

variable {bytes : List UInt8} {front : List Event} {called : Prop}
  {infoHash : InfoHash}

theorem afterHandshake_told (around : VisitSurroundings) (depth : Nat)
    (res : ExitCode) :
    Preserves (ofSocket (Told bytes front called))
      (ofSocket (Told bytes front called))
      (afterHandshake around depth res) := by
  have asked : Preserves (ofSocket (Told bytes front called))
      (ofSocket (Told bytes front called))
      (returning .getPiece (peerGetPiece depth)) :=
    returning_contract (peerGetPiece_contract (fun _ told => told)
      socketReceive_told (socketSend_told piece_notHandshake) depth)
      fun code _ told => told.record _ code
  have extended : Preserves (ofSocket (Told bytes front called))
      (ofSocket (Told bytes front called)) (extendAndFetch around depth) := by
    apply extendAndFetch_contract
    case extended =>
      exact peerExtendedHandshake_contract (fun _ told => told)
        socketReceive_told (socketSend_told extended_notHandshake) _
    case succeeded =>
      exact fun socket told => told.record _ _
    case fetched =>
      intro size
      exact peerGetMetadata_preserves (fun _ told => told)
        socketReceive_told
        (fun pieceNum utMetadata =>
          socketSend_told (metadata_notHandshake pieceNum utMetadata)) _ _ _
    case stops =>
      exact fun peer told => told
    case records =>
      exact fun call code socket told => told.record call code
  cases res with
  | success =>
      rw [afterHandshake]
      apply extended.bind
      intro fetched
      exact asked.bind fun code => .pure ()
  | failure =>
      rw [afterHandshake]
      apply asked.bind
      intro code
      exact .pure ()

theorem handshakesTell_sent (infoHash : InfoHash) :
    HandshakesTell infoHash.bytes
      [handshakeSent (decodeHex infoHash.digits)] := by
  intro message member _
  rw [List.mem_singleton.mp member]
  have sent := peerHandshakeRequestInit_hash infoHash
    (text "-UVG012345678912345-")
  rwa [decodeHex_eq_networkBytes] at sent

/-- What a visited peer has been told. -/
theorem visitPeerOn_told (infoHash : InfoHash) (depth : Nat)
    (visit : PeerVisit) :
    PeerTold infoHash.bytes visit.peer
      ((visitPeerOn (infoHash.digits ++ [0]) depth visit).from
        visit.peer).2 := by
  have untold {refused : Peer}
      (log : refused.socket.log = visit.peer.socket.log)
      (failing : ∀ fd, visit.peer.socket.connecting ≠ .connected fd) :
      ofSocket (Told infoHash.bytes visit.peer.socket.log
        (∃ fd, visit.peer.socket.connecting = .connected fd)) refused := by
    refine ⟨[], by rw [log, List.append_nil], handshakesTell_none, ?_⟩
    intro connects
    rcases connects with ⟨fd, connects⟩
    exact absurd connects (failing fd)
  have fails (connected : socketConnect.from visit.peer.socket =
      (.ok .failure, { visit.peer.socket with sockDesc := none }))
      (failing : ∀ fd, visit.peer.socket.connecting ≠ .connected fd) :
      ofSocket (Told infoHash.bytes visit.peer.socket.log
        (∃ fd, visit.peer.socket.connecting = .connected fd))
        ((visitPeerOn (infoHash.digits ++ [0]) depth visit).from
          visit.peer).2 := by
    have failed : (peerHandshakeOn visit.around.handshake
        visit.infoHashBytes (infoHash.digits ++ [0])).from visit.peer =
          (.ok .failure, { visit.peer with
            socket := { visit.peer.socket with sockDesc := none } }) := by
      rw [peerHandshakeOn, onSocket_bind_from_ok connected]
      rfl
    rw [visitPeerOn, bind_from_ok (returning_from failed)]
    exact (afterHandshake_told visit.around depth .failure).ends
      ((untold rfl failing).record _ _)
  constructor
  cases connecting : visit.peer.socket.connecting with
  | socketFails =>
      exact connecting ▸ fails (by simp only [socketConnect, bind_from,
        getState_from, connecting, setState_from, pure_from])
        (by simp [connecting])
  | refused =>
      exact connecting ▸ fails (by simp only [socketConnect, bind_from,
        getState_from, connecting, setState_from, pure_from])
        (by simp [connecting])
  | hostUnknown =>
      have exited : (onSocket socketConnect).from visit.peer =
          (.error .exited, visit.peer) := by
        simp only [onSocket_from, socketConnect, bind_from, getState_from,
          connecting, liftExec_from]
      have stopped : (visitPeerOn (infoHash.digits ++ [0]) depth visit).from
          visit.peer = (.error .exited, visit.peer) :=
        bind_from_error (bind_from_error (bind_from_error exited _) _) _
      rw [stopped]
      exact connecting ▸ untold rfl (by simp [connecting])
  | connected fd =>
      rcases @peerHandshakeOn_connected _ _ fd visit.around.handshake
        visit.infoHashBytes visit.peer
        (scanInfoHash_digits visit.infoHashBytes infoHash) connecting with
        ⟨final, events, ran, _, log, sent⟩
      rw [visitPeerOn, bind_from_ok (returning_from ran)]
      have told : ofSocket (Told infoHash.bytes visit.peer.socket.log
          (∃ other, Connecting.connected fd = .connected other)) final := by
        refine ⟨events, log, sent ▸ handshakesTell_sent infoHash, fun _ => ?_⟩
        rw [sent]
        exact ⟨_, List.mem_singleton_self _, handshakeSent_isHandshake _⟩
      exact (afterHandshake_told visit.around depth _).ends
        (told.record _ _)

end Visit

/-! ## The conversation -/

/-- What has been told, and the peers that are still to be visited. -/
structure TalksOneHash (future : TrackerFuture) (bytes : List UInt8)
    (run : TrackerRun) : Prop where
  told : AllTellHash future bytes run
  visits : run.visits = future.visits.drop run.visited.length

section Hash

variable {infoHash : InfoHash} {order : ByteOrder}
  {run after : TrackerRun} {future : TrackerFuture} {bytes : List UInt8}

theorem hashRead_urn {text bytes : List UInt8}
    (read : HashRead (urnOf infoHash) run text bytes) :
    text = infoHash.digits ++ [0] ∧ bytes = infoHash.bytes := by
  have extracted := extractInfoHash_urn infoHash
  rw [read.extracted] at extracted
  cases extracted
  have scanned := scanInfoHash_digits (run.next .announce).infoHashBytes
    infoHash
  rw [read.scanned, decodeHex_eq_networkBytes] at scanned
  exact ⟨rfl, Except.ok.inj scanned⟩

theorem announceRequest_hash (order : ByteOrder) {text bytes : List UInt8}
    (read : HashRead (urnOf infoHash) run text bytes) :
    ((run.announceRequest order bytes).drop 16).take 20 =
      infoHash.bytes := by
  rw [(hashRead_urn read).2, TrackerRun.announceRequest]
  exact announceMessage_hash _ _ _ _ (networkBytes_length 20 _)

/-- What the tracker is told by an event. -/
def TellsTracker (bytes : List UInt8) : TrackerEvent → Prop
  | .sent .announce message _ => (message.drop 16).take 20 = bytes
  | _ => True

/-- Further events keep a conversation to one hash. -/
theorem TalksOneHash.append {events : List TrackerEvent}
    (talks : TalksOneHash future bytes run)
    (log : after.log = run.log ++ events)
    (visits : after.visits = run.visits)
    (visited : after.visited = run.visited)
    (further : ∀ event ∈ events, TellsTracker bytes event) :
    TalksOneHash future bytes after := by
  refine ⟨⟨fun message code member => ?_, ?_⟩, ?_⟩
  · rw [log] at member
    rcases List.mem_append.mp member with old | new
    · exact talks.told.tracker message code old
    · exact further _ new
  · rw [visited]
    exact talks.told.peers
  · rw [visits, visited]
    exact talks.visits

theorem talksOneHash_connect {answer : Exec (Verdict Unit)}
    (talks : TalksOneHash future bytes run)
    (outcome : ConnectOutcome order run (answer, after)) :
    TalksOneHash future bytes after := by
  cases outcome with
  | silent noReply =>
      exact talks.append rfl rfl rfl (by simp [TellsTracker])
  | refused arrived response decoded =>
      exact talks.append rfl rfl rfl (by simp [TellsTracker])
  | accepted arrived response decoded action same =>
      exact talks.append rfl rfl rfl (by simp [TellsTracker])

theorem talksOneHash_announce
    {answer : Exec (Verdict (List AnnouncedPeer × List UInt8))}
    (talks : TalksOneHash future infoHash.bytes run)
    (outcome : AnnounceOutcome order (urnOf infoHash) run
      (answer, after)) :
    TalksOneHash future infoHash.bytes after := by
  cases outcome with
  | unsent stop =>
      exact talks.append (List.append_nil _).symm rfl rfl
        (by simp)
  | silent read noReply =>
      have told := announceRequest_hash order read
      exact talks.append rfl rfl rfl (by simp [TellsTracker, told])
  | refused read arrived response decoded =>
      have told := announceRequest_hash order read
      exact talks.append rfl rfl rfl (by simp [TellsTracker, told])
  | accepted read arrived response decoded action same =>
      have told := announceRequest_hash order read
      exact talks.append rfl rfl rfl (by simp [TellsTracker, told])

/-- A round of the loop over the peers visits the next one. -/
theorem TalksOneHash.visit (depth : Nat)
    (talks : TalksOneHash future infoHash.bytes run) :
    TalksOneHash future infoHash.bytes
      (run.visitedNext (infoHash.digits ++ [0]) depth) := by
  have next : run.visits.head = future.visits.get run.visited.length := by
    rw [talks.visits, Stream'.head_drop]
  refine ⟨⟨talks.told.tracker, fun index visited isVisited => ?_⟩, ?_⟩
  · rw [TrackerRun.visitedNext, List.getElem?_append] at isVisited
    split at isVisited
    · exact talks.told.peers index visited isVisited
    · rename_i later
      rcases List.getElem?_eq_some_iff.mp isVisited with ⟨inside, same⟩
      rw [List.length_singleton] at inside
      have last : index = run.visited.length := by omega
      rw [List.getElem_singleton] at same
      have told := visitPeerOn_told infoHash depth run.visits.head
      rwa [same, next, ← last] at told
  · have more : (run.visitedNext (infoHash.digits ++ [0])
        depth).visited.length = run.visited.length + 1 :=
      List.length_append
    rw [more, ← Stream'.tail_drop', ← talks.visits]
    rfl

theorem talksOneHash_invariant (order : ByteOrder) (infoHash : InfoHash)
    (future : TrackerFuture) :
    TalkInvariant order (urnOf infoHash)
      (TalksOneHash future infoHash.bytes)
      fun text _ => text = infoHash.digits ++ [0] where
  quiet := fun quiet talks =>
    talks.append (quiet.log.trans (List.append_nil _).symm) quiet.visits
      quiet.visited (by simp)
  connect := talksOneHash_connect
  announce := fun talks _ outcome => talksOneHash_announce talks outcome
  ready := by
    intro run peers text after talks connected outcome
    cases outcome with
    | accepted read arrived response decoded action same =>
        exact (hashRead_urn read).1
  visit := by
    intro text run depth talks ready
    rw [ready]
    exact ⟨talks.visit depth, rfl⟩
  handshake := fun talks ready =>
    ⟨talks.append rfl rfl rfl (by simp [TellsTracker]), ready⟩

end Hash

theorem TrackerFuture.start_talksOneHash (future : TrackerFuture)
    (bytes : List UInt8) : TalksOneHash future bytes future.start where
  told := by
    constructor
    · intro message code member
      cases member
    · intro index visited isVisited
      cases isVisited
  visits := rfl

/-- In every conversation the tracker and the peers are told the bytes that
the digits of the hash denote. -/
theorem trackerCalls_tellOneHash (order : ByteOrder) (infoHash : InfoHash)
    (depth : Nat) (calls : List TrackerRequest) (future : TrackerFuture) :
    AllTellHash future infoHash.bytes
      ((trackerCalls order (urnOf infoHash) depth calls).from
        future.start).2 :=
  ((talksOneHash_invariant order infoHash future).trackerCalls depth calls
    (future.start_talksOneHash infoHash.bytes)).told

end UvgTorrent
