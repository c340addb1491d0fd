import UvgTorrent.Library.Buffer
import UvgTorrent.Library.ByteOrder
import UvgTorrent.Peer.Socket

/-!
# Receiving a length-prefixed frame

`Peer_Metadata_Packet_receive` and `Peer_Request_Piece_Packet_receive` run
the same code up to the construction of their response, which is a
parameter here.  `bodyRounds` says what the loop does in terms of the bytes
that count as received, and the loop is proved to follow it.
-/

namespace UvgTorrent

open CProgram CArray MachineInt NetStream

/-- The size of the array `out`. -/
def frameBufferSize : Nat := 17 * 2048

/-- The variables of the loop. -/
structure BodyLoop where
  out : Buffer
  pos : Int
  bytesReceived : Int

/-- The end of a round, with what `recv` placed at `out[pos]`. -/
def takeArrival (loop : BodyLoop) (arrived : Option (List UInt8)) :
    Exec BodyLoop := do
  let out ← loop.out.copyAt loop.pos (arrived.getD [])
  let packetSize := recvCount arrived
  pure {
    out
    pos := toInt32 (loop.pos + packetSize)
    bytesReceived := toInt32 (loop.bytesReceived + packetSize) }

/-- The loop, with at most `depth` tests of its condition. -/
def receiveBody (length : Nat) : Nat → BodyLoop → Prog Socket BodyLoop
  | 0, _ => liftExec (.error .unfinished)
  | depth + 1, loop => do
      -- the comparison reads `bytes_received` as a `uint32_t`
      if toUInt32 loop.bytesReceived < length then
        let arrived ← socketReceive
          (toInt32 (toUInt32 (length - loop.bytesReceived)))
        let loop ← liftExec (takeArrival loop arrived)
        receiveBody length depth loop
      else
        pure loop

/-- What follows the loop; `none` is `EXIT_FAILURE`. -/
def finishFrame {Response : Type}
    (responseNew : List UInt8 → Exec Response) (loop : BodyLoop) :
    Prog Socket (Option (Buffer × Response)) := do
  if 0 < loop.bytesReceived then
    let response ← liftExec (responseNew loop.out.cells)
    pure (some (loop.out, response))
  else
    pure none

/-- The receive of a packet.  The result of the first call on the socket is
not looked at. -/
def receiveFrame {Response : Type}
    (responseNew : List UInt8 → Exec Response) (depth : Nat) :
    Prog Socket (Option (Buffer × Response)) := do
  let arrived ← socketReceive 4
  let out ← liftExec
    ((Buffer.zeroed frameBufferSize).copyIn 0 (arrived.getD []))
  let length := bigEndian (out.cells.take 4)
  let loop ← receiveBody length depth ⟨out, 4, 0⟩
  finishFrame responseNew loop

/-! ## What counts as received -/

/-- The bytes of a body that `out` has room for. -/
def bodyRoom : Nat := frameBufferSize - 4

inductive BodyEnd where
  | complete (body : List UInt8)
  | broken
  | overrun

/-- The number of bytes a round asks for. -/
def askedFor (announced received : Nat) : Nat :=
  toSize (toInt32 (announced - received : Nat))

/-- The bytes that still count after an error takes the last one back;
`none` when there is none to take. -/
def takeBack (body : List UInt8) : Option (List UInt8) :=
  if body = [] then none else some body.dropLast

/-- The rounds of the loop.  The connection is broken once an error has
nothing to take back. -/
def bodyRounds (announced : Nat) :
    Nat → Option (List UInt8) → ByteStream → Option (BodyEnd × ByteStream)
  | 0, _, _ => none
  | _ + 1, none, stream => some (.broken, stream)
  | depth + 1, some body, stream =>
      if body.length < announced then
        let asked := askedFor announced body.length
        match stream.arrival asked with
        | none =>
            bodyRounds announced depth (takeBack body) (stream.after asked)
        | some bytes =>
            if body.length + bytes.length ≤ bodyRoom then
              bodyRounds announced depth (some (body ++ bytes))
                (stream.after asked)
            else
              some (.overrun, stream.after asked)
      else
        some (.complete body, stream)

/-- The four bytes that are read as the length, and the stream behind
them. -/
def framePrefix (stream : ByteStream) : List UInt8 :=
  let arrived := (stream.arrival 4).getD []
  arrived ++ List.replicate (4 - arrived.length) 0

def announcedLength (stream : ByteStream) : Nat :=
  bigEndian (framePrefix stream)

def frameRounds (depth : Nat) (stream : ByteStream) :
    Option (BodyEnd × ByteStream) :=
  bodyRounds (announcedLength stream) depth (some []) (stream.after 4)

/-! ## The loop follows the rounds -/

/-- The array holds the prefix and the body, and the counters agree. -/
structure HoldsBody (four body : List UInt8) (loop : BodyLoop) : Prop where
  size : loop.out.cells.length = frameBufferSize
  noStray : loop.out.stray = []
  start : loop.out.cells.take (4 + body.length) = four ++ body
  pos : loop.pos = 4 + body.length
  received : loop.bytesReceived = body.length
  room : body.length ≤ bodyRoom

def HoldsReceived (four : List UInt8) :
    Option (List UInt8) → BodyLoop → Prop
  | some body, loop => HoldsBody four body loop
  | none, loop => loop.bytesReceived = -1

/-- What the loop leaves when the rounds end in a given way. -/
def FollowsRounds (four : List UInt8) (socket : Socket)
    (rounds : Option (BodyEnd × ByteStream))
    (result : Exec BodyLoop × Socket) : Prop :=
  match rounds with
  | none => result.1 = .error .unfinished
  | some (.overrun, _) => result.1 = .error .writePast
  | some (.broken, stream) =>
      ∃ loop log, result.1 = .ok loop ∧ loop.bytesReceived = -1 ∧
        result.2 = { socket with stream := stream, log := log }
  | some (.complete body, stream) =>
      ∃ loop log, result.1 = .ok loop ∧ HoldsBody four body loop ∧
        result.2 = { socket with stream := stream, log := log }

section Rounds

variable {four body bytes : List UInt8} {loop : BodyLoop}

theorem HoldsBody.body_small (held : HoldsBody four body loop) :
    body.length < 2 ^ 20 := by
  have room := held.room
  have roomSize : bodyRoom = 34812 := rfl
  omega

theorem HoldsBody.counted (held : HoldsBody four body loop) :
    toUInt32 loop.bytesReceived = body.length := by
  have small := held.body_small
  have reading := @toUInt32_of_range body.length (by omega) (by omega)
  rw [held.received]
  omega

theorem takeArrival_bytes (held : HoldsBody four body loop)
    (fourLength : four.length = 4)
    (fits : body.length + bytes.length ≤ bodyRoom) :
    ∃ after, takeArrival loop (some bytes) = .ok after ∧
      HoldsBody four (body ++ bytes) after := by
  have roomSize : bodyRoom = 34812 := rfl
  have bufferSize : frameBufferSize = 34816 := rfl
  have inside : 4 + body.length + bytes.length ≤
      loop.out.cells.length := by
    rw [held.size]
    omega
  have position : loop.pos = ((4 + body.length : Nat) : Int) := by
    rw [held.pos]
    omega
  have copied :
      loop.out.copyAt loop.pos bytes = .ok { loop.out with
        cells := loop.out.cells.take (4 + body.length) ++ bytes ++
          loop.out.cells.drop (4 + body.length + bytes.length) } := by
    rw [position, Buffer.copyAt_natCast, Buffer.copyIn_of_le inside]
  refine ⟨_, by
    simp only [takeArrival, Option.getD_some, copied, ok_bind, pure_exec]
    rfl, ?_⟩
  have front : (loop.out.cells.take (4 + body.length) ++ bytes).length =
      4 + (body ++ bytes).length := by
    rw [held.start]
    simp only [List.length_append, fourLength]
    omega
  constructor
  case size =>
    simp only [List.length_append, List.length_take, List.length_drop]
    have size := held.size
    omega
  case noStray =>
    exact held.noStray
  case start =>
    rw [← front, List.take_left, held.start, List.append_assoc]
  case pos =>
    show toInt32 (loop.pos + bytes.length) = 4 + (body ++ bytes).length
    rw [held.pos, List.length_append, toInt32_of_range] <;> omega
  case received =>
    show toInt32 (loop.bytesReceived + bytes.length) = (body ++ bytes).length
    rw [held.received, List.length_append, toInt32_of_range] <;> omega
  case room =>
    rw [List.length_append]
    exact fits

theorem takeArrival_overrun (held : HoldsBody four body loop)
    (overruns : bodyRoom < body.length + bytes.length) :
    takeArrival loop (some bytes) = .error .writePast := by
  have roomSize : bodyRoom = 34812 := rfl
  have bufferSize : frameBufferSize = 34816 := rfl
  have outside : loop.out.cells.length <
      4 + body.length + bytes.length := by
    rw [held.size]
    omega
  have position : loop.pos = ((4 + body.length : Nat) : Int) := by
    rw [held.pos]
    omega
  simp only [takeArrival, Option.getD_some, position,
    Buffer.copyAt_natCast, Buffer.copyIn_of_lt outside, error_bind]

/-- An error leaves the array alone and moves both counters back. -/
theorem takeArrival_error (held : HoldsBody four body loop) :
    takeArrival loop none = .ok {
      out := loop.out
      pos := 3 + body.length
      bytesReceived := body.length - 1 } := by
  have small := held.body_small
  have roomSize : bodyRoom = 34812 := rfl
  have bufferSize : frameBufferSize = 34816 := rfl
  have inside : 4 + body.length + ([] : List UInt8).length ≤
      loop.out.cells.length := by
    have room := held.room
    rw [held.size, List.length_nil]
    omega
  have position : loop.pos = ((4 + body.length : Nat) : Int) := by
    rw [held.pos]
    omega
  have copied : loop.out.copyAt loop.pos [] = .ok loop.out := by
    rw [position, Buffer.copyAt_natCast, Buffer.copyIn_of_le inside]
    simp only [List.append_nil, List.length_nil, Nat.add_zero,
      List.take_append_drop]
  have backPos : toInt32 (loop.pos + recvCount none) = 3 + body.length := by
    rw [held.pos, toInt32_of_range] <;> simp only [recvCount] <;> omega
  have backReceived : toInt32 (loop.bytesReceived + recvCount none) =
      body.length - 1 := by
    rw [held.received, toInt32_of_range] <;> simp only [recvCount] <;> omega
  simp only [takeArrival, Option.getD_none, copied, ok_bind, pure_exec,
    backPos, backReceived]

theorem takeArrival_back (held : HoldsBody four body loop)
    (fourLength : four.length = 4) :
    ∃ after, takeArrival loop none = .ok after ∧
      HoldsReceived four (takeBack body) after := by
  refine ⟨_, takeArrival_error held, ?_⟩
  unfold takeBack
  by_cases empty : body = []
  · rw [if_pos empty, empty]
    rfl
  · have positive := List.length_pos_iff.mpr empty
    have shorter : body.dropLast.length = body.length - 1 :=
      List.length_dropLast
    have room := held.room
    rw [if_neg empty]
    constructor
    case size =>
      exact held.size
    case noStray =>
      exact held.noStray
    case start =>
      have kept : loop.out.cells.take (4 + body.dropLast.length) =
          (four ++ body).take (4 + body.dropLast.length) := by
        rw [← held.start, List.take_take, Nat.min_eq_left (by omega)]
      rw [kept, ← fourLength, List.take_length_add_append, shorter,
        List.dropLast_eq_take]
    case pos =>
      show (3 + body.length : Int) = 4 + body.dropLast.length
      omega
    case received =>
      show (body.length - 1 : Int) = body.dropLast.length
      omega
    case room =>
      omega

theorem askedFor_eq (received : Nat) {announced : Nat}
    (short : received < announced) (bound : announced < 2 ^ 32) :
    toSize (toInt32 (toUInt32 ((announced : Int) - received))) =
      askedFor announced received := by
  have missing : toUInt32 ((announced : Int) - received) =
      announced - received := by
    have reading := @toUInt32_of_range ((announced : Int) - received)
      (by omega) (by omega)
    omega
  rw [missing, askedFor]

theorem FollowsRounds.forget {socket : Socket} {stream : ByteStream}
    {log : List Event} {rounds : Option (BodyEnd × ByteStream)}
    {result : Exec BodyLoop × Socket}
    (follows : FollowsRounds four
      { socket with stream := stream, log := log } rounds result) :
    FollowsRounds four socket rounds result := by
  cases rounds with
  | none =>
      exact follows
  | some finished =>
      rcases finished with ⟨finish, behind⟩
      cases finish with
      | complete body => exact follows
      | broken => exact follows
      | overrun => exact follows

/-- One round of the loop, from a state that asks for more. -/
theorem receiveBody_round {announced fd : Nat} (bound : announced < 2 ^ 32)
    (depth : Nat) {socket : Socket} (isOpen : socket.sockDesc = some fd)
    (held : HoldsBody four body loop) (short : body.length < announced) :
    ∃ log, (receiveBody announced (depth + 1) loop).from socket =
      (liftExec (takeArrival loop (socket.stream.arrival
          (askedFor announced body.length))) >>=
        receiveBody announced depth).from { socket with
          stream := socket.stream.after (askedFor announced body.length)
          log := log } := by
  have asked : toSize (toInt32 (toUInt32
      ((announced : Int) - loop.bytesReceived))) =
        askedFor announced body.length := by
    rw [held.received, askedFor_eq body.length short bound]
  rw [receiveBody, if_pos (by rw [held.counted]; exact short),
    bind_from_ok (socketReceive_from isOpen _), asked]
  exact ⟨_, rfl⟩

/-- The loop follows the rounds, from any state that holds what they start
from. -/
theorem receiveBody_follows {announced : Nat} (fd : Nat)
    (bound : announced < 2 ^ 32) (fourLength : four.length = 4)
    (depth : Nat) {received : Option (List UInt8)} {socket : Socket}
    (isOpen : socket.sockDesc = some fd)
    (held : HoldsReceived four received loop) :
    FollowsRounds four socket
      (bodyRounds announced depth received socket.stream)
      ((receiveBody announced depth loop).from socket) := by
  induction depth generalizing received loop socket with
  | zero =>
      rfl
  | succ depth inductionHypothesis =>
      cases received with
      | none =>
          -- the counter reads as the largest length, so the loop ends
          have stops : ¬ toUInt32 loop.bytesReceived < announced := by
            have top : toUInt32 (-1) = 2 ^ 32 - 1 := by decide
            have counter : loop.bytesReceived = -1 := held
            rw [counter]
            omega
          rw [receiveBody, if_neg stops, bodyRounds, pure_from]
          exact ⟨loop, socket.log, rfl, held, rfl⟩
      | some body =>
          by_cases short : body.length < announced
          · obtain ⟨log, step⟩ :=
              receiveBody_round bound depth isOpen held short
            rw [step, bodyRounds, if_pos short]
            cases arrived : socket.stream.arrival
                (askedFor announced body.length) with
            | none =>
                obtain ⟨after, taken, heldAfter⟩ :=
                  takeArrival_back held fourLength
                rw [bind_from_ok (by rw [liftExec_from, taken])]
                simp only [arrived]
                exact .forget (inductionHypothesis isOpen heldAfter)
            | some bytes =>
                by_cases fits : body.length + bytes.length ≤ bodyRoom
                · obtain ⟨after, taken, heldAfter⟩ :=
                    takeArrival_bytes held fourLength fits
                  rw [bind_from_ok (by rw [liftExec_from, taken])]
                  simp only [arrived, if_pos fits]
                  exact .forget (inductionHypothesis isOpen heldAfter)
                · have taken := takeArrival_overrun held
                    (Nat.not_le.mp fits)
                  rw [bind_from_error (by rw [liftExec_from, taken])]
                  simp only [arrived, if_neg fits]
                  rfl
          · have counted := HoldsBody.counted held
            rw [receiveBody, if_neg (by rw [counted]; exact short),
              bodyRounds, if_neg short, pure_from]
            exact ⟨loop, socket.log, rfl, held, rfl⟩

end Rounds

/-! ## The whole frame -/

/-- The array starts with the frame. -/
structure HoldsFrame (frame : List UInt8) (out : Buffer) : Prop where
  size : out.cells.length = frameBufferSize
  noStray : out.stray = []
  start : out.cells.take frame.length = frame

/-- What a receive answers and leaves when the rounds end in a given way. -/
def FollowsFrame {Response : Type}
    (responseNew : List UInt8 → Exec Response) (socket : Socket)
    (rounds : Option (BodyEnd × ByteStream))
    (result : Exec (Option (Buffer × Response)) × Socket) : Prop :=
  match rounds with
  | none => result.1 = .error .unfinished
  | some (.overrun, _) => result.1 = .error .writePast
  | some (.broken, stream) =>
      result.1 = .ok none ∧
        ∃ log, result.2 = { socket with stream := stream, log := log }
  | some (.complete body, stream) =>
      (body = [] → result.1 = .ok none) ∧
      (body ≠ [] → ∃ out,
        HoldsFrame (framePrefix socket.stream ++ body) out ∧
        result.1 = do
          let response ← responseNew out.cells
          pure (some (out, response))) ∧
      ∃ log, result.2 = { socket with stream := stream, log := log }

theorem framePrefix_length (stream : ByteStream) :
    (framePrefix stream).length = 4 := by
  have short : ((stream.arrival 4).getD []).length ≤ 4 := by
    cases arrived : stream.arrival 4 with
    | none => exact Nat.zero_le 4
    | some bytes => exact ByteStream.arrival_length_le arrived
  simp only [framePrefix, List.length_append, List.length_replicate]
  omega

theorem announcedLength_lt (stream : ByteStream) :
    announcedLength stream < 2 ^ 32 := by
  have bound := bigEndian_lt (framePrefix stream)
  rwa [framePrefix_length] at bound

theorem prefix_placed (stream : ByteStream) :
    ∃ out, (Buffer.zeroed frameBufferSize).copyIn 0
        ((stream.arrival 4).getD []) = .ok out ∧
      HoldsBody (framePrefix stream) [] ⟨out, 4, 0⟩ := by
  have bufferSize : frameBufferSize = 34816 := rfl
  have short : ((stream.arrival 4).getD []).length ≤ 4 := by
    have length := framePrefix_length stream
    rw [framePrefix, List.length_append] at length
    omega
  have zeros : (Buffer.zeroed frameBufferSize).cells =
      List.replicate frameBufferSize 0 :=
    rfl
  have inside : 0 + ((stream.arrival 4).getD []).length ≤
      (Buffer.zeroed frameBufferSize).cells.length := by
    rw [zeros, List.length_replicate]
    omega
  refine ⟨_, Buffer.copyIn_of_le inside, ?_⟩
  constructor
  case size =>
    simp only [zeros, List.take_zero, List.nil_append, List.length_append,
      List.length_drop, List.length_replicate]
    omega
  case noStray =>
    rfl
  case start =>
    rw [zeros, List.take_zero, List.nil_append, List.drop_replicate,
      List.append_nil, List.take_append, List.take_replicate,
      List.take_of_length_le (by simpa using short), framePrefix]
    congr 2
    simp only [List.length_nil]
    omega
  case pos =>
    rfl
  case received =>
    rfl
  case room =>
    exact Nat.zero_le _

theorem finishFrame_follows {Response : Type}
    (responseNew : List UInt8 → Exec Response)
    {socket start : Socket} {program : Prog Socket BodyLoop}
    {rounds : Option (BodyEnd × ByteStream)}
    (follows : FollowsRounds (framePrefix socket.stream) socket rounds
      (program.from start)) :
    FollowsFrame responseNew socket rounds
      ((program >>= finishFrame responseNew).from start) := by
  cases result : program.from start with
  | mk answer final =>
      rw [result] at follows
      cases rounds with
      | none =>
          cases follows
          rw [bind_from_error result]
          rfl
      | some finished =>
          rcases finished with ⟨finish, stream⟩
          cases finish with
          | overrun =>
              cases follows
              rw [bind_from_error result]
              rfl
          | broken =>
              rcases follows with ⟨loop, log, answered, counter, left⟩
              cases answered
              cases left
              rw [bind_from_ok result, finishFrame, counter]
              exact ⟨rfl, log, rfl⟩
          | complete body =>
              rcases follows with ⟨loop, log, answered, held, left⟩
              cases answered
              cases left
              rw [bind_from_ok result, finishFrame, held.received]
              have length := framePrefix_length socket.stream
              by_cases empty : body = []
              · subst empty
                exact ⟨fun _ => rfl, fun nonempty => absurd rfl nonempty,
                  log, rfl⟩
              · have positive := List.length_pos_iff.mpr empty
                rw [if_pos (by omega), bind_from]
                have frame : HoldsFrame (framePrefix socket.stream ++ body)
                    loop.out := by
                  refine ⟨held.size, held.noStray, ?_⟩
                  rw [List.length_append, length]
                  exact held.start
                refine ⟨fun isEmpty => absurd isEmpty empty,
                  fun _ => ⟨loop.out, frame, ?_⟩, log, ?_⟩ <;>
                  cases responseNew loop.out.cells <;> rfl

/-- The receive of a packet follows the rounds of the frame at the front of
the stream. -/
theorem receiveFrame_follows {Response : Type}
    (responseNew : List UInt8 → Exec Response) (depth : Nat)
    {socket : Socket} {fd : Nat} (isOpen : socket.sockDesc = some fd) :
    FollowsFrame responseNew socket (frameRounds depth socket.stream)
      ((receiveFrame responseNew depth).from socket) := by
  rcases prefix_placed socket.stream with ⟨out, placed, held⟩
  have isPrefix : out.cells.take 4 = framePrefix socket.stream := by
    have start := held.start
    rwa [List.append_nil] at start
  have four : toSize 4 = 4 := by decide
  rw [receiveFrame, bind_from_ok (socketReceive_from isOpen 4), four,
    bind_from_ok (by rw [liftExec_from, placed])]
  simp only [isPrefix]
  have received :
      HoldsReceived (framePrefix socket.stream) (some []) ⟨out, 4, 0⟩ :=
    held
  refine finishFrame_follows responseNew (.forget
    (receiveBody_follows fd (announcedLength_lt socket.stream)
      (framePrefix_length socket.stream) depth ?_ received))
  exact isOpen

end UvgTorrent
