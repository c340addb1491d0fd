import UvgTorrent.Tracker.PeerLoop

/-!
# When the loop keeps the order

A peer that answers the handshake is talked to in order whatever happens
afterwards.  Any other peer is sent a message out of order, unless its host
is unknown and the program ends.
-/

namespace UvgTorrent

open CProgram CArray EventLog MachineInt

/-- A socket as it is created. -/
structure Fresh (socket : Socket) : Prop where
  closed : socket.sockDesc = none
  noCalls : socket.log = []

/-- The peer accepts the connection and the handshake, and sends bytes. -/
structure RepliesToHandshake (socket : Socket) : Prop where
  connects : ∃ fd, socket.connecting = .connected fd
  sends : socket.sends.head = true
  replies : 0 < recvCount (socket.stream.arrival replyBufferSize)

/-! ## Talking in order -/

/-- The socket is open, what has been done with it was in order, and the log
has reached a milestone. -/
structure Conversing (infoHash : InfoHash) (milestone : Milestone Event)
    (socket : Socket) : Prop where
  inOrder : InOrder infoHash socket
  isOpen : HoldsOpened socket.log socket.sockDesc
  reached : milestone.Reached socket.log

section Conversing

variable {infoHash : InfoHash} {milestone further : Milestone Event}
  {socket : Socket}

theorem HoldsOpened.snoc {before : List Event} {sockDesc : Option Nat}
    (opened : HoldsOpened before sockDesc) (event : Event) :
    HoldsOpened (before ++ [event]) sockDesc := by
  rcases opened with ⟨fd, isOpen, member⟩
  exact ⟨fd, isOpen, List.mem_append_left _ member⟩

theorem Conversing.record
    (conversing : Conversing infoHash milestone socket) {event : Event}
    (allowed : Permitted infoHash socket.log event) :
    Conversing infoHash milestone (socket.record event) where
  inOrder := orderly_snoc conversing.inOrder allowed
  isOpen := conversing.isOpen.snoc event
  reached := milestone.persists conversing.reached

theorem Conversing.returned
    (conversing : Conversing infoHash milestone socket) (call : PeerCall)
    (code : ExitCode) :
    Conversing infoHash (milestone.and (.happened (.returned call code)))
      (socket.record (.returned call code)) := by
  have permitted : Permitted infoHash socket.log (.returned call code) :=
    trivial
  have recorded := conversing.record permitted
  exact ⟨recorded.inOrder, recorded.isOpen, recorded.reached,
    List.mem_append_right _ (List.mem_singleton_self _)⟩

theorem socketSend_converses {message : List UInt8}
    (allowed : ∀ before, milestone.Reached before →
      MessageInOrder infoHash before message) :
    Preserves (Conversing infoHash milestone) (InOrder infoHash)
      (socketSend message) := by
  intro socket conversing
  rcases conversing.isOpen with ⟨fd, isOpen, opened⟩
  have permitted : Permitted infoHash socket.log
      (.send (some fd) message) :=
    ⟨⟨fd, rfl, opened⟩, allowed _ conversing.reached⟩
  have recorded := conversing.record permitted
  rw [socketSend_from isOpen]
  exact ⟨recorded.inOrder, recorded.isOpen, recorded.reached⟩

theorem socketReceive_converses (readSize : Int) :
    Preserves (Conversing infoHash milestone) (InOrder infoHash)
      (socketReceive readSize) := by
  intro socket conversing
  rcases conversing.isOpen with ⟨fd, isOpen, opened⟩
  have permitted : Permitted infoHash socket.log (.receive (some fd)) :=
    ⟨fd, rfl, opened⟩
  have counted : Permitted infoHash
      (socket.record (.receive (some fd))).log (.received (recvCount
        (socket.stream.arrival (toSize readSize)))) :=
    trivial
  have recorded := (conversing.record permitted).record counted
  rw [socketReceive_from isOpen, List.append_cons]
  exact ⟨recorded.inOrder, recorded.isOpen, recorded.reached⟩

end Conversing

/-! ## The functions of the loop -/

section Loop

variable {before stopped : Peer → Prop} {invariant agreed : Socket → Prop}

theorem returning_contract {call : PeerCall} {program : Prog Peer ExitCode}
    {after : ExitCode → Socket → Prop}
    (ran : Contract before program (fun _ => ofSocket invariant) stopped)
    (recorded : ∀ code socket, invariant socket →
      after code (socket.record (.returned call code))) :
    Contract before (returning call program)
      (fun code => ofSocket (after code)) stopped := by
  apply Contract.bind ran
  intro code peer holds
  exact recorded code peer.socket holds

/-- The branch for a handshake that succeeded keeps an invariant if its
messages do. -/
theorem extendAndFetch_contract {around : VisitSurroundings} {depth : Nat}
    (extended : Contract before
      (peerExtendedHandshake around.extendedHandshake)
      (fun _ => ofSocket invariant) stopped)
    (succeeded : ∀ socket, invariant socket →
      agreed (socket.record (.returned .extendedHandshake .success)))
    (fetched : ∀ metadataSize, Contract (ofSocket agreed)
      (peerGetMetadata around.metadata depth metadataSize)
      (fun _ => ofSocket invariant) stopped)
    (stops : ∀ peer, ofSocket agreed peer → stopped peer)
    (records : ∀ call code socket, invariant socket →
      invariant (socket.record (.returned call code))) :
    Contract before (extendAndFetch around depth)
      (fun _ => ofSocket invariant) stopped := by
  have returned : Contract before
      (returning .extendedHandshake
        (peerExtendedHandshake around.extendedHandshake))
      (fun code => ofSocket fun socket =>
        (code = .success → agreed socket) ∧ invariant socket) stopped := by
    apply returning_contract extended
    intro code socket holds
    refine ⟨?_, records _ _ socket holds⟩
    rintro rfl
    exact succeeded socket holds
  apply Contract.bind returned
  intro code
  cases code with
  | success =>
      apply Contract.bind .getState
      intro peer
      split
      · exact Contract.stop fun state holds => stops state (holds.2.1 rfl)
      · apply Contract.strengthen _ fun state holds => holds.2.1 rfl
        apply Contract.bind
          (returning_contract (fetched peer.metadataSize) (records _))
        intro code
        exact Contract.pure fun peer holds => holds
  | failure =>
      exact Contract.pure fun peer holds => holds.2

theorem visitPeer_from {infoHash : InfoHash} {depth : Nat}
    {around : VisitSurroundings} {peer final : Peer} {code : ExitCode}
    (ran : (peerHandshake around.handshake infoHash).from peer =
      (.ok code, final)) :
    (visitPeer infoHash depth around).from peer =
      (afterHandshake around depth code).from { final with
        socket := final.socket.record (.returned .handshake code) } := by
  have returned : (returning .handshake
      (peerHandshake around.handshake infoHash)).from peer =
        (.ok code, { final with
          socket := final.socket.record (.returned .handshake code) }) := by
    rw [returning, bind_from_ok ran]
    rfl
  rw [visitPeer, bind_from_ok returned]

end Loop

section Answered

variable {infoHash : InfoHash}

/-- The handshake has succeeded on a reply. -/
def shaken (infoHash : InfoHash) : Milestone Event :=
  (handshakeReplied infoHash).and (.happened (.returned .handshake .success))

theorem Conversing.records {milestone : Milestone Event} (call : PeerCall)
    (code : ExitCode) (socket : Socket)
    (conversing : Conversing infoHash milestone socket) :
    Conversing infoHash milestone (socket.record (.returned call code)) := by
  have returned := conversing.returned call code
  exact ⟨returned.inOrder, returned.isOpen, returned.reached.1⟩

theorem extendAndFetch_converses (around : VisitSurroundings) (depth : Nat) :
    Preserves (ofSocket (Conversing infoHash (shaken infoHash)))
      (ofSocket (InOrder infoHash)) (extendAndFetch around depth) := by
  apply extendAndFetch_contract
  case extended =>
    apply peerExtendedHandshake_contract
    · exact fun socket conversing => conversing.inOrder
    · exact socketReceive_converses
    · apply socketSend_converses
      exact fun before reached => extendedHandshake_inOrder reached.1
  case succeeded =>
    exact fun socket conversing => conversing.returned _ _
  case fetched =>
    intro metadataSize
    apply Contract.weaken
    · apply peerGetMetadata_preserves
      · exact fun socket conversing => conversing.inOrder
      · exact socketReceive_converses
      · intro pieceNum utMetadata
        apply socketSend_converses
        exact fun before reached => metadata_inOrder _ _ reached.2
    · exact fun code peer conversing =>
        ⟨conversing.inOrder, conversing.isOpen, conversing.reached.1⟩
    · exact fun peer inOrder => inOrder
  case stops =>
    exact fun peer conversing => conversing.inOrder
  case records =>
    exact Conversing.records

theorem getPiece_converses (depth : Nat) :
    Preserves (ofSocket (Conversing infoHash (shaken infoHash)))
      (ofSocket (InOrder infoHash))
      (returning .getPiece (peerGetPiece depth)) := by
  apply returning_contract _ (Conversing.records _)
  apply peerGetPiece_contract
  · exact fun socket conversing => conversing.inOrder
  · exact socketReceive_converses
  · apply socketSend_converses
    exact fun before reached => piece_inOrder reached.2

theorem conversing_of_handshake {socket : Socket} {fd : Nat} {count : Int}
    (isOpen : socket.sockDesc = some fd) (positive : 0 < count)
    (log : socket.log =
      [.opened fd, .send (some fd) (handshakeMessage infoHash),
        .receive (some fd), .received count,
        .returned .handshake .success]) :
    Conversing infoHash (shaken infoHash) socket := by
  have opened : Orderly (Permitted infoHash) [.opened fd] :=
    orderly_snoc orderly_nil trivial
  have sent : Orderly (Permitted infoHash)
      [.opened fd, .send (some fd) (handshakeMessage infoHash)] :=
    orderly_snoc opened
      ⟨⟨fd, rfl, List.mem_cons_self⟩, handshakeMessage_inOrder⟩
  have asked : Orderly (Permitted infoHash)
      [.opened fd, .send (some fd) (handshakeMessage infoHash),
        .receive (some fd)] :=
    orderly_snoc sent ⟨fd, rfl, List.mem_cons_self⟩
  have counted : Orderly (Permitted infoHash)
      [.opened fd, .send (some fd) (handshakeMessage infoHash),
        .receive (some fd), .received count] :=
    orderly_snoc asked trivial
  constructor
  case inOrder =>
    rw [InOrder, log]
    exact orderly_snoc counted trivial
  case isOpen =>
    rw [log, isOpen]
    exact ⟨fd, rfl, List.mem_cons_self⟩
  case reached =>
    rw [log]
    refine ⟨⟨[.opened fd, .send (some fd) (handshakeMessage infoHash),
      .receive (some fd)], count, [.returned .handshake .success], rfl,
      positive, some fd, ?_⟩, ?_⟩
    · exact List.mem_cons_of_mem _ List.mem_cons_self
    · show _ ∈ [_, _, _, _, _]
      simp only [List.mem_cons, true_or, or_true]

theorem visitPeer_inOrder {peer : Peer} (depth : Nat)
    (around : VisitSurroundings) (fresh : Fresh peer.socket)
    (replies : RepliesToHandshake peer.socket) :
    InOrder infoHash
      ((visitPeer infoHash depth around).from peer).2.socket := by
  rcases replies.connects with ⟨fd, connects⟩
  rcases @peerHandshake_connected peer infoHash around.handshake fd connects
    with ⟨final, ran, isOpen, log⟩
  rw [replies.sends, if_pos rfl] at ran
  rw [fresh.noCalls, handshakeEvents, replies.sends, if_pos rfl] at log
  have conversing : Conversing infoHash (shaken infoHash)
      (final.socket.record (.returned .handshake .success)) := by
    apply conversing_of_handshake
    case isOpen => exact isOpen
    case positive => exact replies.replies
    case log =>
      rw [Socket.record, log]
      rfl
  have talked : Preserves (ofSocket (Conversing infoHash (shaken infoHash)))
      (ofSocket (InOrder infoHash)) (afterHandshake around depth .success) := by
    apply Preserves.bind (extendAndFetch_converses around depth)
    intro fetched
    apply Preserves.bind (getPiece_converses depth)
    intro code
    exact .pure ()
  have ordered := talked.weaken
    (fun _ peer (conversing : ofSocket (Conversing infoHash _) peer) =>
      conversing.inOrder) (fun _ inOrder => inOrder)
  rw [visitPeer_from ran]
  exact ordered.ends conversing

end Answered

/-! ## Other peers -/

section Unanswered

variable {infoHash : InfoHash} {front : List Event}

def Grown (front : List Event) (socket : Socket) : Prop :=
  front <+: socket.log

theorem Grown.record {socket : Socket} (grown : Grown front socket)
    (event : Event) : Grown front (socket.record event) :=
  grown.trans (List.prefix_append _ _)

theorem not_inOrder {event : Event} {socket : Socket}
    (forbidden : ¬ Permitted infoHash front event)
    (grown : Grown (front ++ [event]) socket) :
    ¬ InOrder infoHash socket := by
  intro inOrder
  rcases grown with ⟨rest, log⟩
  apply forbidden
  apply inOrder front event rest
  rw [← log, List.append_assoc, List.singleton_append]

theorem socketReceive_grows (readSize : Int) :
    Preserves (Grown front) (Grown front) (socketReceive readSize) := by
  intro socket grown
  have asked := grown.record (.receive socket.sockDesc)
  cases closed : socket.sockDesc with
  | none =>
      rw [closed] at asked
      simp only [socketReceive, bind_from, getState_from, setState_from,
        closed, liftExec_from]
      exact asked
  | some fd =>
      rw [socketReceive_from closed]
      exact grown.trans (List.prefix_append _ _)

theorem socketSend_adds (sockDesc : Option Nat) (message : List UInt8) :
    Contract
      (fun socket => socket.log = front ∧ socket.sockDesc = sockDesc)
      (socketSend message)
      (fun _ => Grown (front ++ [.send sockDesc message]))
      (Grown (front ++ [.send sockDesc message])) := by
  rintro socket ⟨rfl, rfl⟩
  cases closed : socket.sockDesc with
  | none =>
      simp only [socketSend, bind_from, getState_from, setState_from,
        closed, liftExec_from]
      exact List.prefix_rfl
  | some fd =>
      rw [socketSend_from closed]
      exact List.prefix_rfl

theorem socketSend_grows (message : List UInt8) :
    Preserves (Grown front) (Grown front) (socketSend message) := by
  rintro socket grown
  have sent := @socketSend_adds socket.log socket.sockDesc message socket
    ⟨rfl, rfl⟩
  split at sent
  · exact (grown.trans (List.prefix_append _ _)).trans sent
  · exact (grown.trans (List.prefix_append _ _)).trans sent

/-- The visit of a peer whose handshake has failed starts with the request
of a piece. -/
theorem failedVisit_grows (around : VisitSurroundings) (depth : Nat)
    (sockDesc : Option Nat) :
    Contract
      (ofSocket fun socket =>
        socket.log = front ∧ socket.sockDesc = sockDesc)
      (afterHandshake around depth .failure)
      (fun _ => ofSocket (Grown (front ++
        [.send sockDesc peerRequestPieceRequestInit.bytes])))
      (ofSocket (Grown (front ++
        [.send sockDesc peerRequestPieceRequestInit.bytes]))) := by
  rw [afterHandshake]
  apply Contract.bind
  · apply returning_contract
    · apply peerGetPiece_contract (fun socket grown => grown)
      · exact socketReceive_grows
      · exact socketSend_adds sockDesc _
    · exact fun code socket grown => grown.record _
  · intro code
    exact Contract.pure fun peer grown => grown

/-- The visit of a peer whose handshake has succeeded starts with the
extended handshake. -/
theorem succeededVisit_grows (around : VisitSurroundings) (depth : Nat)
    (sockDesc : Option Nat) :
    Contract
      (ofSocket fun socket =>
        socket.log = front ∧ socket.sockDesc = sockDesc)
      (afterHandshake around depth .success)
      (fun _ => ofSocket (Grown (front ++
        [.send sockDesc peerExtendedHandshakeRequestInit.bytes])))
      (ofSocket (Grown (front ++
        [.send sockDesc peerExtendedHandshakeRequestInit.bytes]))) := by
  apply Contract.bind
  · apply extendAndFetch_contract
    case extended =>
      apply peerExtendedHandshake_contract (fun socket grown => grown)
      · exact socketReceive_grows
      · exact socketSend_adds sockDesc _
    case succeeded =>
      exact fun socket grown => grown.record _
    case fetched =>
      intro metadataSize
      apply peerGetMetadata_preserves (fun socket grown => grown)
      · exact socketReceive_grows
      · exact fun pieceNum utMetadata => socketSend_grows _
    case stops =>
      exact fun peer grown => grown
    case records =>
      exact fun call code socket grown => grown.record _
  · intro fetched
    apply Preserves.bind
    · apply returning_contract
      · apply peerGetPiece_contract (fun socket grown => grown)
        · exact socketReceive_grows
        · exact socketSend_grows _
      · exact fun code socket grown => grown.record _
    · intro code
      exact .pure ()

theorem outOfOrder_of_failure {depth : Nat} {around : VisitSurroundings}
    {peer final : Peer}
    (ran : (peerHandshake around.handshake infoHash).from peer =
      (.ok .failure, final))
    (forbidden : ¬ Permitted infoHash
      (final.socket.log ++ [.returned .handshake .failure])
      (.send final.socket.sockDesc peerRequestPieceRequestInit.bytes)) :
    ¬ InOrder infoHash
      ((visitPeer infoHash depth around).from peer).2.socket := by
  rw [visitPeer_from ran]
  exact not_inOrder forbidden
    ((failedVisit_grows around depth _).ends ⟨rfl, rfl⟩)

theorem outOfOrder_of_success {depth : Nat} {around : VisitSurroundings}
    {peer final : Peer}
    (ran : (peerHandshake around.handshake infoHash).from peer =
      (.ok .success, final))
    (forbidden : ¬ Permitted infoHash
      (final.socket.log ++ [.returned .handshake .success])
      (.send final.socket.sockDesc peerExtendedHandshakeRequestInit.bytes)) :
    ¬ InOrder infoHash
      ((visitPeer infoHash depth around).from peer).2.socket := by
  rw [visitPeer_from ran]
  exact not_inOrder forbidden
    ((succeededVisit_grows around depth _).ends ⟨rfl, rfl⟩)

/-- Without a connection the request of a piece goes through `NULL`. -/
theorem visitPeer_outOfOrder_refused {peer : Peer} (depth : Nat)
    (around : VisitSurroundings)
    (failing : peer.socket.connecting = .socketFails ∨
      peer.socket.connecting = .refused) :
    ¬ InOrder infoHash
      ((visitPeer infoHash depth around).from peer).2.socket := by
  apply outOfOrder_of_failure (peerHandshake_refused _ failing)
  rintro ⟨⟨fd, isOpen, _⟩, _⟩
  cases isOpen

/-- Without a handshake a piece is asked for all the same. -/
theorem visitPeer_outOfOrder_unsent {peer : Peer} {fd : Nat} (depth : Nat)
    (around : VisitSurroundings) (fresh : Fresh peer.socket)
    (connects : peer.socket.connecting = .connected fd)
    (lost : peer.socket.sends.head = false) :
    ¬ InOrder infoHash
      ((visitPeer infoHash depth around).from peer).2.socket := by
  rcases @peerHandshake_connected peer infoHash around.handshake fd connects
    with ⟨final, ran, isOpen, log⟩
  rw [lost, if_neg Bool.false_ne_true] at ran
  rw [fresh.noCalls, handshakeEvents, lost, if_neg Bool.false_ne_true]
    at log
  apply outOfOrder_of_failure ran
  rintro ⟨_, inOrder⟩
  have member := inOrder.piece rfl
  rw [log] at member
  simp at member

/-- Without a reply the extended handshake is sent all the same. -/
theorem visitPeer_outOfOrder_silent {peer : Peer} {fd : Nat} (depth : Nat)
    (around : VisitSurroundings) (fresh : Fresh peer.socket)
    (connects : peer.socket.connecting = .connected fd)
    (sent : peer.socket.sends.head = true)
    (silent : ¬ 0 < recvCount
      (peer.socket.stream.arrival replyBufferSize)) :
    ¬ InOrder infoHash
      ((visitPeer infoHash depth around).from peer).2.socket := by
  rcases @peerHandshake_connected peer infoHash around.handshake fd connects
    with ⟨final, ran, isOpen, log⟩
  rw [sent, if_pos rfl] at ran
  rw [fresh.noCalls, handshakeEvents, sent, if_pos rfl] at log
  apply outOfOrder_of_success ran
  rintro ⟨_, inOrder⟩
  rcases inOrder.extendedHandshake rfl with
    ⟨front, count, rest, split, positive, _⟩
  have member : Event.received count ∈ front ++ .received count :: rest :=
    List.mem_append_right _ List.mem_cons_self
  rw [← split, log] at member
  have counted : count =
      recvCount (peer.socket.stream.arrival replyBufferSize) := by
    simpa using member
  rw [counted] at positive
  exact silent positive

end Unanswered

/-- A fresh peer is talked to in order exactly when its host is unknown, so
that the program ends, or it answers the handshake. -/
theorem visitPeer_inOrder_iff (infoHash : InfoHash) (depth : Nat)
    (around : VisitSurroundings) {peer : Peer}
    (fresh : Fresh peer.socket) :
    InOrder infoHash
        ((visitPeer infoHash depth around).from peer).2.socket ↔
      peer.socket.connecting = .hostUnknown ∨
        RepliesToHandshake peer.socket := by
  constructor
  · intro inOrder
    cases connecting : peer.socket.connecting with
    | socketFails =>
        exact absurd inOrder (visitPeer_outOfOrder_refused depth around
          (.inl connecting))
    | hostUnknown =>
        exact .inl rfl
    | refused =>
        exact absurd inOrder (visitPeer_outOfOrder_refused depth around
          (.inr connecting))
    | connected fd =>
        right
        have sent : peer.socket.sends.head = true := by
          by_contra lost
          exact visitPeer_outOfOrder_unsent depth around fresh connecting
            (Bool.eq_false_iff.mpr lost) inOrder
        refine ⟨⟨fd, connecting⟩, sent, ?_⟩
        by_contra silent
        exact visitPeer_outOfOrder_silent depth around fresh connecting sent
          silent inOrder
  · rintro (unknown | replies)
    · have exited : (returning .handshake
          (peerHandshake around.handshake infoHash)).from peer =
            (.error .exited, peer) :=
        bind_from_error (peerHandshake_unknown around.handshake unknown) _
      rw [visitPeer, bind_from_error exited, InOrder, fresh.noCalls]
      exact orderly_nil
    · exact visitPeer_inOrder depth around fresh replies

/-- The loop makes every call on a socket in its order. -/
def KeepsOrder (infoHash : InfoHash) (peers : List Peer) : Prop :=
  ∀ depth around, ∀ peer ∈ ((visitPeers infoHash depth around).from peers).2,
    InOrder infoHash peer.socket

/-- The loop keeps the order if each peer answers the handshake or has an
unknown host. -/
theorem visitPeers_keepsOrder (infoHash : InfoHash) (peers : List Peer)
    (fresh : ∀ peer ∈ peers, Fresh peer.socket)
    (answers : ∀ peer ∈ peers, peer.socket.connecting = .hostUnknown ∨
      RepliesToHandshake peer.socket) :
    KeepsOrder infoHash peers := by
  intro depth around
  apply @forEach_ends Peer _ (fun peer => Fresh peer.socket ∧
    (peer.socket.connecting = .hostUnknown ∨
      RepliesToHandshake peer.socket))
  · rintro peer ⟨created, _⟩
    rw [InOrder, created.noCalls]
    exact orderly_nil
  · rintro index peer ⟨created, answer⟩
    exact (visitPeer_inOrder_iff infoHash depth (around index) created).mpr
      answer
  · exact fun peer member => ⟨fresh peer member, answers peer member⟩

/-- A new peer, and what the network will do to it. -/
def newPeer (connecting : Connecting) (incoming : List UInt8) : Peer where
  socket := {
    sockDesc := none
    connecting
    sends := .const true
    stream := .cutAt incoming (.const 99)
    log := [] }
  utMetadata := 0
  metadataSize := 0
  numPieces := 0
  pieceSize := 0

theorem visitPeers_keepsOrder_greeting : KeepsOrder zeroHash
    [newPeer (.connected 3) [19, 66, 105, 116], newPeer .hostUnknown []] := by
  apply visitPeers_keepsOrder
  · intro peer member
    simp only [List.mem_cons, List.not_mem_nil, or_false] at member
    rcases member with rfl | rfl
    · exact ⟨rfl, rfl⟩
    · exact ⟨rfl, rfl⟩
  · intro peer member
    simp only [List.mem_cons, List.not_mem_nil, or_false] at member
    rcases member with rfl | rfl
    · right
      exact ⟨⟨3, rfl⟩, rfl, by decide⟩
    · left
      rfl

theorem visitPeers_asks_refusing :
    ¬ KeepsOrder zeroHash [newPeer .refused []] := by
  intro keeps
  have around : VisitSurroundings :=
    ⟨⟨0, fun _ => 0⟩, ⟨0, fun _ => 0⟩,
      ⟨fun _ => 0, fun _ => ⟨0, fun _ => 0⟩, .little⟩⟩
  have refused := @visitPeer_outOfOrder_refused zeroHash
    (newPeer .refused []) 1 around (.inr rfl)
  apply refused
  apply keeps 1 (fun _ => around)
  rw [visitPeers, forEach, Prog.from, forEachFrom]
  split
  · rename_i final outcome
    rw [outcome]
    exact List.mem_cons_self
  · rename_i stop final outcome
    rw [outcome]
    exact List.mem_cons_self

end UvgTorrent
