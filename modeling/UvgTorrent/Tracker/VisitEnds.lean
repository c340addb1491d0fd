import UvgTorrent.Peer.CollectedReplies
import UvgTorrent.Peer.HandshakeParameters
import UvgTorrent.Peer.ReadableDictionary
import UvgTorrent.Tracker.Exchange

/-!
# When a conversation comes to its end

The conversation with a peer has no exit of its own: it ends if nothing that
the peer sends makes one of the functions leave its arrays or its objects.
`TalkEnds` says so of the peer alone, of the outcomes of its connection and
of the sends, and of the bytes that it sends.
-/

namespace UvgTorrent

open CProgram CText CArray MachineInt NetStream

/-- What is left behind the receive of a reply. -/
def Coming.heard (coming : Coming) : Coming :=
  { coming with stream := coming.stream.after replyBufferSize }

/-- The array has a size, the replies are taken up to the end or a failure,
and what they hold can be read. -/
def FetchEnds (around : MetadataSurroundings) (depth : Nat)
    (size pieces : Int) (coming left : Coming) : Prop :=
  ∃ (capacity : Nat) (answer : ExitCode × Assembly),
    toInt32 (size * pieces) = capacity ∧
    Collects around depth pieces.toNat 0 (newAssembly around capacity)
      coming answer left ∧
    (answer.1 = .success → MetadataReadable depth (terminate answer).2)

/-- The peer says nothing to the extended handshake, or announces no
metadata. -/
def Sizeless (around : Surroundings) (coming : Coming) : Prop :=
  ∀ reply, coming.stream.arrival replyBufferSize = some reply →
    reply = [] ∨ ∃ extension, Announces around reply 0 extension

/-- What a peer may say to the extended handshake, and to the requests that
follow one that announces metadata. -/
inductive ExtensionEnds (around : VisitSurroundings) (depth : Nat)
    (coming : Coming) : Coming → Prop
  | unsent (lost : coming.sends.head = false) :
      ExtensionEnds around depth coming coming.sent
  | sizeless (sent : coming.sends.head = true)
      (nothing : Sizeless around.extendedHandshake coming) :
      ExtensionEnds around depth coming coming.sent.heard
  | sized {reply : List UInt8} {size extension : Int} {left : Coming}
      (sent : coming.sends.head = true)
      (arrived : coming.stream.arrival replyBufferSize = some reply)
      (nonempty : reply ≠ [])
      (announces : Announces around.extendedHandshake reply size extension)
      (positive : 0 < size)
      (fetched : FetchEnds around.metadata depth size
        (size.tdiv (16 * 1024)) coming.sent.heard left) :
      ExtensionEnds around depth coming left

section Functions

variable {depth fd : Nat} {coming left : Coming} {peer final : Peer}
  {code : ExitCode}

theorem FetchEnds.ran {around : MetadataSurroundings} {size : Int}
    (ends : FetchEnds around depth size peer.numPieces coming left)
    (start : Expects fd coming peer.socket) :
    ∃ code final, (peerGetMetadata around depth size).from peer =
      (.ok code, final) ∧ Expects fd left final.socket := by
  rcases ends with ⟨capacity, answer, sized, collects, consumes⟩
  rcases @Collects.ran around depth fd _ _ peer.utMetadata _ peer.socket _ _
    _ collects start with ⟨after, waits, collected⟩
  rw [peerGetMetadata, bind_from, assembleMetadata_from around depth sized,
    collected]
  rcases answer with ⟨code, assembly⟩
  cases code with
  | failure => exact ⟨_, _, rfl, waits⟩
  | success =>
      rcases (@consumeInfo_returns_iff around.order depth _).mpr
        (consumes rfl) with ⟨lines, consumed⟩
      rw [terminate] at consumed
      simp only [Except.map, terminate, bind_from, liftExec_from, consumed]
      exact ⟨_, _, rfl, waits⟩

theorem Expects.asked (start : Expects fd coming peer.socket) :
    Expects fd coming.sent (peer.socket.asked fd) :=
  ⟨start.isOpen, congrArg Stream'.tail start.sends, start.stream⟩

theorem Sizeless.fails {around : Surroundings}
    (nothing : Sizeless around coming) (sent : coming.sends.head = true)
    (start : Expects fd coming peer.socket) :
    ∃ final, (peerExtendedHandshake around).from peer =
      (.ok .failure, final) ∧ Expects fd coming.sent.heard final.socket := by
  have waits := start.asked
  have goes : peer.socket.sends.head = true := by
    rw [start.sends, sent]
  rw [peerExtendedHandshake_sent start.isOpen goes]
  by_cases none : ∀ reply,
      (peer.socket.asked fd).stream.arrival replyBufferSize =
        some reply → reply = []
  · rcases @extendedReceive_none around _ fd waits.isOpen none with
      ⟨log, silent⟩
    rw [onSocket_bind_from_ok silent]
    refine ⟨_, rfl, waits.isOpen, waits.sends, ?_⟩
    rw [waits.stream]
    rfl
  · push Not at none
    rcases none with ⟨reply, arrived, nonempty⟩
    have received := @extendedReceive_from around reply _ fd waits.isOpen
      arrived nonempty
    rw [waits.stream] at arrived received
    rcases nothing reply arrived with empty | ⟨extension, announces⟩
    · exact absurd empty nonempty
    · rcases peerExtendedHandshakeResponseInit_announces announces with
        ⟨response, answered, sizeSame, _⟩
      rw [answered] at received
      rw [onSocket_bind_from_ok received, takeOver, sizeSame,
        if_neg (not_not.mpr rfl)]
      exact ⟨_, rfl, waits.isOpen, waits.sends, rfl⟩

theorem Expects.record {socket : Socket} (waits : Expects fd coming socket)
    (event : Event) : Expects fd coming (socket.record event) :=
  ⟨waits.isOpen, waits.sends, waits.stream⟩

/-- The return of a function leaves the socket as it is. -/
theorem returning_from {call : PeerCall} {program : Prog Peer ExitCode}
    (ran : program.from peer = (.ok code, final)) :
    (returning call program).from peer = (.ok code, { final with
      socket := final.socket.record (.returned call code) }) := by
  rw [returning, bind_from_ok ran]
  rfl

end Functions

section Visit

variable {around : VisitSurroundings} {depth fd : Nat}
  {coming left : Coming} {peer final : Peer}

theorem ExtensionEnds.ran (ends : ExtensionEnds around depth coming left)
    (start : Expects fd coming peer.socket) :
    ∃ final, (extendAndFetch around depth).from peer = (.ok (), final) ∧
      Expects fd left final.socket := by
  rw [extendAndFetch]
  cases ends with
  | unsent lost =>
      have goes := socketSend_from start.isOpen
        peerExtendedHandshakeRequestInit.bytes
      rw [start.sends, lost] at goes
      have failed : ∃ final,
          (peerExtendedHandshake around.extendedHandshake).from peer =
            (.ok .failure, final) ∧ Expects fd coming.sent final.socket := by
        rw [peerExtendedHandshake, onSocket_bind_from_ok goes]
        exact ⟨_, rfl, start.isOpen, rfl, start.stream⟩
      rcases failed with ⟨after, extended, waits⟩
      rw [bind_from_ok (returning_from extended)]
      exact ⟨_, rfl, waits.record _⟩
  | sizeless sent nothing =>
      rcases nothing.fails sent start with ⟨after, extended, waits⟩
      rw [bind_from_ok (returning_from extended)]
      exact ⟨_, rfl, waits.record _⟩
  | sized sent arrived nonempty announces positive fetched =>
      rename_i reply size extension
      have replies : Replies peer reply :=
        ⟨⟨fd, start.isOpen⟩, by rw [start.sends, sent],
          by rw [start.stream, arrived], nonempty⟩
      rcases peerExtendedHandshake_succeeds replies announces
        (by omega) with ⟨after, extended, greeted⟩
      have waits : Expects fd coming.sent.heard after.socket := by
        refine ⟨greeted.sockDesc.trans start.isOpen, ?_, ?_⟩
        · rw [greeted.sends, start.sends]
          rfl
        · rw [greeted.stream, start.stream]
          rfl
      obtain rfl := greeted.metadataSize
      have starts := waits.record (.returned .extendedHandshake .success)
      rw [← greeted.numPieces] at fetched
      rcases @FetchEnds.ran depth fd _ _ { after with
        socket := after.socket.record
          (.returned .extendedHandshake .success) } _ after.metadataSize
        fetched starts with ⟨code, last, got, ended⟩
      rw [bind_from_ok (returning_from extended)]
      simp only []
      rw [bind_from_ok (getState_from _)]
      simp only [if_neg (Int.not_lt.mpr positive.le)]
      rw [bind_from_ok (returning_from got)]
      exact ⟨_, rfl, ended.record _⟩

end Visit

section Talk

variable {infoHash infoHashBytes : List UInt8} {depth fd : Nat}
  {visit : PeerVisit} {around block : Surroundings} {peer : Peer}

/-- The message that a peer is sent first. -/
def handshakeSent (infoHashBytes : List UInt8) : List UInt8 :=
  (handshakePacket infoHashBytes (text "-UVG012345678912345-")).bytes

/-- A handshake on a connection answers with the result of its send, and
sends nothing else. -/
theorem peerHandshakeOn_connected
    (scanned : scanInfoHash block infoHash = .ok infoHashBytes)
    (connects : peer.socket.connecting = .connected fd) :
    ∃ final events, (peerHandshakeOn around block infoHash).from peer =
        (.ok (if peer.socket.coming.sends.head then .success else .failure),
          final) ∧
      Expects fd (if peer.socket.coming.sends.head then
        peer.socket.coming.sent.heard else peer.socket.coming.sent)
          final.socket ∧
      final.socket.log = peer.socket.log ++ events ∧
      messagesSent events = [handshakeSent infoHashBytes] := by
  have connected : socketConnect.from peer.socket =
      (.ok .success, { peer.socket with sockDesc := some fd }.record
        (.opened fd)) := by
    simp only [socketConnect, bind_from, getState_from, connects,
      setState_from, pure_from]
  have packed : peerHandshakeRequestInitOn block infoHash
      (text "-UVG012345678912345-") = .ok (handshakePacket infoHashBytes
        (text "-UVG012345678912345-")) := by
    rw [peerHandshakeRequestInitOn, scanned]
    rfl
  have sends : (socketSend (handshakePacket infoHashBytes
      (text "-UVG012345678912345-")).bytes).from
        ({ peer.socket with sockDesc := some fd }.record (.opened fd)) =
      (.ok (if peer.socket.coming.sends.head then .success else .failure),
        { peer.socket with
          sockDesc := some fd
          sends := peer.socket.sends.tail
          log := peer.socket.log ++
            [.opened fd, .send (some fd) (handshakeSent infoHashBytes)] }) := by
    rw [@socketSend_from _ fd rfl, Socket.record, List.append_assoc]
    rfl
  rw [peerHandshakeOn, onSocket_bind_from_ok connected]
  simp only []
  rw [packed, bind_from_ok (liftExec_from _ _), onSocket_bind_from_ok sends]
  cases sent : peer.socket.coming.sends.head with
  | false =>
      exact ⟨_, _, rfl, ⟨rfl, rfl, rfl⟩, rfl, rfl⟩
  | true =>
      rcases @peerHandshakePacketReceive_answers { peer.socket with
        sockDesc := some fd
        sends := peer.socket.sends.tail
        log := peer.socket.log ++
          [.opened fd, .send (some fd) (handshakeSent infoHashBytes)] }
        fd around rfl with ⟨response, answered⟩
      simp only [if_true]
      rw [onSocket_bind_from_ok answered]
      exact ⟨_, _, rfl, ⟨rfl, rfl, rfl⟩, List.append_assoc _ _ _, rfl⟩

end Talk

end UvgTorrent
