import Mathlib.Data.Stream.Defs
import UvgTorrent.Torrent.HashText
import UvgTorrent.Tracker.PeerLoop
import UvgTorrent.Tracker.Packets
import UvgTorrent.Utils.Descriptors

/-!
# The conversation with a tracker

`Tracker_connect` and `Tracker_announce` send a request, wait for one
datagram and call themselves again when none comes.  The log records the
calls on the socket, the comparison of the transaction ids, what is accepted
and each peer handshake that is started.  Allocations succeed.
-/

namespace UvgTorrent

open CProgram CText CArray MachineInt

inductive TrackerRequest where
  | connect
  | announce
  deriving DecidableEq, Repr

inductive TrackerEvent where
  | sent (request : TrackerRequest) (message : List UInt8) (code : ExitCode)
  | timedOut
  | received (datagram : List UInt8)
  | compared (same : Bool)
  | accepted (request : TrackerRequest) (datagram : List UInt8)
  | handshake (infoHash : List UInt8)
  deriving DecidableEq, Repr

/-- What the machine and the network decide for one request: the random
number, what the arrays hold before they are written, whether `sendto`
succeeds, and the datagram that arrives before the timeout. -/
structure Attempt where
  rand : Int32
  packet : AnnounceSurroundings
  infoHashBytes : Surroundings
  out : Surroundings
  sent : Bool
  reply : Option (List UInt8)

/-- A peer that is created, and what is decided while it is talked to. -/
structure PeerVisit where
  peer : Peer
  around : VisitSurroundings
  infoHashBytes : Surroundings

structure Tracker where
  connected : Bool
  attempts : Nat
  maxAttempts : Nat
  connectionId : Int64
  lastTransactionId : Int32
  trackerSocket : Option Descriptors.Socket

/-- A tracker together with what is still to come, and what has happened. -/
structure TrackerRun where
  tracker : Tracker
  connecting : Stream' Descriptors.Outcome
  coming : TrackerRequest → Stream' Attempt
  visits : Stream' PeerVisit
  visited : List Peer
  log : List TrackerEvent

/-- `Tracker_init`. -/
def trackerNew : Tracker where
  connected := false
  attempts := 0
  maxAttempts := 5
  connectionId := 0
  lastTransactionId := 0
  trackerSocket := none

def TrackerRun.record (run : TrackerRun) (events : List TrackerEvent) :
    TrackerRun :=
  { run with log := run.log ++ events }

def recordEvent (event : TrackerEvent) : Prog TrackerRun Unit :=
  modifyState fun run => run.record [event]

def updateTracker (change : Tracker → Tracker) : Prog TrackerRun Unit :=
  modifyState fun run => { run with tracker := change run.tracker }

/-! ## The socket -/

/-- The socket is created before the first connection. -/
def trackerSocketConnect : Prog TrackerRun ExitCode := do
  let run ← getState
  let socket := run.tracker.trackerSocket.getD (Descriptors.socketNew .udp)
  let result := (Descriptors.socketConnect run.connecting.head).from socket
  setState { run with
    tracker := { run.tracker with trackerSocket := some result.2 }
    connecting := run.connecting.tail }
  liftExec result.1

/-- `*this->sock_desc` of the socket of the tracker. -/
def Tracker.descriptor (tracker : Tracker) : Option Int :=
  tracker.trackerSocket.bind fun socket => socket.sockDesc

def Attempt.code (attempt : Attempt) : ExitCode :=
  if attempt.sent then .success else .failure

/-- `Socket_send`. -/
def trackerSend (request : TrackerRequest) (attempt : Attempt)
    (message : List UInt8) : Prog TrackerRun ExitCode := do
  let run ← getState
  match run.tracker.descriptor with
  | none => liftExec (.error .nullPointer)
  | some _ =>
      recordEvent (.sent request message attempt.code)
      pure attempt.code

/-- `Socket_receive` into the local array `out`.  The answer is the datagram,
cut to the size of the array, and the array. -/
def trackerReceive (attempt : Attempt) :
    Prog TrackerRun (Option (List UInt8 × List UInt8)) := do
  let run ← getState
  match run.tracker.descriptor with
  | none => liftExec (.error .nullPointer)
  | some _ =>
      match attempt.reply with
      | none =>
          recordEvent .timedOut
          pure none
      | some reply =>
          let datagram := reply.take replyBufferSize
          recordEvent (.received datagram)
          let out ← liftExec
            ((attempt.out.block replyBufferSize).copyIn 0 datagram)
          pure (some (datagram, out.cells))

/-! ## One attempt -/

/-- What is decided for the next request. -/
def takeAttempt (request : TrackerRequest) : Prog TrackerRun Attempt := do
  let run ← getState
  setState { run with
    coming := fun other =>
      if other = request then (run.coming other).tail
      else run.coming other }
  pure (run.coming request).head

/-- The id that is made of a random number. -/
def transactionIdOf (rand : Int32) : Int32 :=
  rand % 1000000

/-- `Tracker_generate_transID`. -/
def trackerGenerateTransID (rand : Int32) : Prog TrackerRun Unit :=
  updateTracker fun tracker => { tracker with
    lastTransactionId := transactionIdOf rand }

/-- The test of a response. -/
def checkResponse (wanted action transactionId : Int32) :
    Prog TrackerRun Bool := do
  let run ← getState
  let same := run.tracker.lastTransactionId == transactionId
  recordEvent (.compared same)
  pure (action == wanted && same)

inductive Verdict (α : Type) where
  | accepted (answer : α)
  | refused
  | timedOut

/-- `Tracker_connect` once its socket is connected, up to the decision
whether to try again. -/
def trackerConnectExchange (order : ByteOrder) :
    Prog TrackerRun (Verdict Unit) := do
  let attempt ← takeAttempt .connect
  trackerGenerateTransID attempt.rand
  let this ← getState
  let request ← liftExec (trackerConnectRequestInit attempt.packet.packet
    order this.tracker.lastTransactionId)
  -- the result of the send is not looked at
  let _ ← trackerSend .connect attempt request.bytes
  match ← trackerReceive attempt with
  | none => pure .timedOut
  | some (datagram, out) =>
      let response ← liftExec (trackerConnectResponseInit order out)
      if ← checkResponse 0 response.action response.transactionId then
        updateTracker fun tracker => { tracker with
          connected := true
          attempts := 0
          connectionId := response.connectionId }
        recordEvent (.accepted .connect datagram)
        pure (.accepted ())
      else
        pure .refused

def trackerConnectAttempt (order : ByteOrder) :
    Prog TrackerRun (Verdict Unit) := do
  match ← trackerSocketConnect with
  | .success => trackerConnectExchange order
  | .failure => pure .refused

/-- The peer id of an announce request. -/
def announcePeerId : List UInt8 :=
  text "UVG01234567891234567" ++ [0]

/-- `Tracker_announce` up to the decision whether to try again.  The answer
is the list of peers and the text that they are sent the hash of. -/
def trackerAnnounceExchange (order : ByteOrder) (hash : CString) :
    Prog TrackerRun (Verdict (List AnnouncedPeer × List UInt8)) := do
  let attempt ← takeAttempt .announce
  trackerGenerateTransID attempt.rand
  let infoHash ← liftExec (extractInfoHash hash)
  let infoHashBytes ← liftExec
    (scanInfoHash attempt.infoHashBytes infoHash)
  let this ← getState
  let request ← liftExec (trackerAnnounceRequestInit attempt.packet order
    this.tracker.connectionId this.tracker.lastTransactionId infoHashBytes
    announcePeerId)
  -- the result of the send is not looked at
  let _ ← trackerSend .announce attempt request.bytes
  match ← trackerReceive attempt with
  | none => pure .timedOut
  | some (datagram, out) =>
      let response ← liftExec
        (trackerAnnounceResponseInit order out datagram.length)
      if ← checkResponse 1 response.action response.transactionId then
        updateTracker fun tracker => { tracker with attempts := 0 }
        recordEvent (.accepted .announce datagram)
        pure (.accepted (response.peers.values, infoHash))
      else
        pure .refused

/-! ## The peers -/

/-- `Peer_handshake` on the text of a hash. -/
def peerHandshakeOn (around infoHashBytes : Surroundings)
    (infoHash : List UInt8) : Prog Peer ExitCode := do
  match ← onSocket socketConnect with
  | .success =>
      let handshake ← liftExec (peerHandshakeRequestInitOn infoHashBytes
        infoHash (text "-UVG012345678912345-"))
      match ← onSocket (socketSend handshake.bytes) with
      | .success =>
          -- the result only decides which mark is printed
          let _ ← onSocket (peerHandshakePacketReceive around)
          pure .success
      | .failure => pure .failure
  | .failure => pure .failure

/-- The body of the loop over the peers. -/
def visitPeerOn (infoHash : List UInt8) (depth : Nat) (visit : PeerVisit) :
    Prog Peer Unit := do
  let res ← returning .handshake (peerHandshakeOn visit.around.handshake
    visit.infoHashBytes infoHash)
  afterHandshake visit.around depth res

/-- A round of the loop, on the next peer that was created. -/
def visitNext (infoHash : List UInt8) (depth : Nat) :
    Prog TrackerRun Unit := do
  let run ← getState
  let result :=
    (visitPeerOn infoHash depth run.visits.head).from run.visits.head.peer
  setState { run with
    visits := run.visits.tail
    visited := run.visited ++ [result.2] }
  liftExec result.1

/-- The loop over the peers of a response. -/
def visitAnnounced (infoHash : List UInt8) (depth : Nat) :
    List AnnouncedPeer → Prog TrackerRun Unit
  | [] => pure ()
  | _ :: rest => do
      recordEvent (.handshake infoHash)
      visitNext infoHash depth
      visitAnnounced infoHash depth rest

/-! ## The two functions -/

/-- The error exit, behind which no attempts count. -/
def trackerGiveUp : Prog TrackerRun ExitCode := do
  updateTracker fun tracker => { tracker with attempts := 0 }
  pure .failure

def trackerTryAgain : Prog TrackerRun Unit :=
  updateTracker fun tracker =>
    { tracker with attempts := tracker.attempts + 1 }

/-- `Tracker_connect`, with at most `depth` calls of itself. -/
def trackerConnectFrom (order : ByteOrder) : Nat → Prog TrackerRun ExitCode
  | 0 => liftExec (.error .unfinished)
  | depth + 1 => do
      match ← trackerConnectAttempt order with
      | .accepted _ => pure .success
      | .refused => trackerGiveUp
      | .timedOut =>
          let this ← getState
          if this.tracker.attempts < this.tracker.maxAttempts then
            trackerTryAgain
            trackerConnectFrom order depth
          else
            trackerGiveUp

/-- `Tracker_announce`, with at most `rounds` calls of itself.  `depth` bounds
the loops of the peers. -/
def trackerAnnounceFrom (order : ByteOrder) (hash : CString) (depth : Nat) :
    Nat → Prog TrackerRun ExitCode
  | 0 => liftExec (.error .unfinished)
  | rounds + 1 => do
      let this ← getState
      if this.tracker.connected then
        match ← trackerAnnounceExchange order hash with
        | .accepted (peers, infoHash) =>
            visitAnnounced infoHash depth peers
            pure .success
        | .refused => trackerGiveUp
        | .timedOut =>
            let this ← getState
            if this.tracker.attempts < this.tracker.maxAttempts then
              trackerTryAgain
              -- the result of the call is not looked at
              let _ ← trackerAnnounceFrom order hash depth rounds
              pure .success
            else
              pure .success
      else
        pure .success

/-- The number of calls that the attempts left allow. -/
def Tracker.calls (tracker : Tracker) : Nat :=
  tracker.maxAttempts - tracker.attempts + 1

/-- `Tracker_connect`. -/
def trackerConnect (order : ByteOrder) : Prog TrackerRun ExitCode := do
  let this ← getState
  trackerConnectFrom order this.tracker.calls

/-- `Tracker_announce`. -/
def trackerAnnounce (order : ByteOrder) (hash : CString) (depth : Nat) :
    Prog TrackerRun ExitCode := do
  let this ← getState
  trackerAnnounceFrom order hash depth this.tracker.calls

end UvgTorrent
