import UvgTorrent.Library.ByteStream
import UvgTorrent.Library.Program
import UvgTorrent.Library.MachineInt

/-!
# TCP sockets

The socket of a peer together with what the network will do to it: the
outcome of a connection, of each `send` still to come, and the stream that
`recv` reads.  The log records the calls on the socket with the descriptor
they were made on, and what the functions of the peer return.
-/

namespace UvgTorrent

open CProgram MachineInt NetStream

/-- The outcome of `socket`, `gethostbyname` and `connect`. -/
inductive Connecting where
  | socketFails
  | hostUnknown
  | refused
  | connected (fd : Nat)
  deriving DecidableEq, Repr

/-- The functions of a peer that return an exit code to their caller. -/
inductive PeerCall where
  | handshake
  | extendedHandshake
  | getMetadata
  | getPiece
  deriving DecidableEq, Repr

inductive Event where
  | opened (fd : Nat)
  | send (sockDesc : Option Nat) (message : List UInt8)
  | receive (sockDesc : Option Nat)
  | received (count : Int)
  | returned (call : PeerCall) (code : ExitCode)
  deriving DecidableEq, Repr

/-- `sock_desc` is `none` while the pointer is `NULL`. -/
structure Socket where
  sockDesc : Option Nat
  connecting : Connecting
  sends : Stream' Bool
  stream : ByteStream
  log : List Event

def Socket.record (socket : Socket) (event : Event) : Socket :=
  { socket with log := socket.log ++ [event] }

/-- The messages in a log. -/
def messagesSent (log : List Event) : List (List UInt8) :=
  log.filterMap fun
    | .send _ message => some message
    | _ => none

theorem messagesSent_append (first second : List Event) :
    messagesSent (first ++ second) =
      messagesSent first ++ messagesSent second :=
  List.filterMap_append

def recvCount : Option (List UInt8) → Int
  | some bytes => bytes.length
  | none => -1

/-- `Socket_connect`.  Every failure after the allocation frees `sock_desc`,
and an unknown host ends the program. -/
def socketConnect : Prog Socket ExitCode := do
  let socket ← getState
  match socket.connecting with
  | .socketFails =>
      setState { socket with sockDesc := none }
      pure .failure
  | .hostUnknown => liftExec (.error .exited)
  | .refused =>
      setState { socket with sockDesc := none }
      pure .failure
  | .connected fd =>
      setState ({ socket with sockDesc := some fd }.record (.opened fd))
      pure .success

/-- `Socket_send`. -/
def socketSend (message : List UInt8) : Prog Socket ExitCode := do
  let socket ← getState
  setState (socket.record (.send socket.sockDesc message))
  match socket.sockDesc with
  | none => liftExec (.error .nullPointer)
  | some _ =>
      modifyState fun socket => { socket with sends := socket.sends.tail }
      pure (if socket.sends.head then .success else .failure)

/-- `Socket_receive`; the answer is the bytes that `recv` places at the
start of the buffer, and `none` for a count of -1. -/
def socketReceive (readSize : Int) : Prog Socket (Option (List UInt8)) := do
  let socket ← getState
  setState (socket.record (.receive socket.sockDesc))
  match socket.sockDesc with
  | none => liftExec (.error .nullPointer)
  | some _ =>
      let arrived := socket.stream.arrival (toSize readSize)
      modifyState fun socket =>
        { socket with
          stream := socket.stream.after (toSize readSize) }.record
            (.received (recvCount arrived))
      pure arrived

section Calls

variable {socket : Socket} {fd : Nat}

theorem socketSend_from (isOpen : socket.sockDesc = some fd)
    (message : List UInt8) :
    (socketSend message).from socket =
      (.ok (if socket.sends.head then .success else .failure),
        { socket with
          sends := socket.sends.tail
          log := socket.log ++ [.send (some fd) message] }) := by
  simp only [socketSend, bind_from, getState_from, setState_from, isOpen,
    modifyState_from, pure_from, Socket.record]

theorem socketReceive_from (isOpen : socket.sockDesc = some fd)
    (readSize : Int) :
    (socketReceive readSize).from socket =
      (.ok (socket.stream.arrival (toSize readSize)),
        { socket with
          stream := socket.stream.after (toSize readSize)
          log := socket.log ++ [.receive (some fd), .received
            (recvCount (socket.stream.arrival (toSize readSize)))] }) := by
  simp only [socketReceive, bind_from, getState_from, setState_from, isOpen,
    modifyState_from, pure_from, Socket.record, List.append_assoc,
    List.singleton_append]

end Calls

end UvgTorrent
