import UvgTorrent.Peer.MetadataRounds

/-!
# What the replies come to

The loop over the pieces looks at nothing but the outcome of each send and
the frames that arrive.  `Collects` says what it makes of them, and the loop
is proved to follow it.
-/

namespace UvgTorrent

open CProgram CText CArray MachineInt NetStream

/-- What a socket still has to come. -/
structure Coming where
  sends : Stream' Bool
  stream : ByteStream

def Socket.coming (socket : Socket) : Coming :=
  ⟨socket.sends, socket.stream⟩

/-- What is left behind a send. -/
def Coming.sent (coming : Coming) : Coming :=
  { coming with sends := coming.sends.tail }

/-- An array that starts with the frame of a body. -/
def framedReply (body : List UInt8) : List UInt8 :=
  bigEndian32 body.length ++ body ++
    List.replicate (bodyRoom - body.length) 0

/-- The response that is made of a reply. -/
def replyResponse (around : Surroundings) (body : List UInt8) :
    Exec PeerMetadataResponse :=
  peerMetadataResponseInit around (framedReply body)

/-- The loop over so many pieces comes to an answer and leaves the rest. -/
inductive Collects (around : MetadataSurroundings) (depth : Nat) :
    Nat → Nat → Assembly → Coming → ExitCode × Assembly → Coming → Prop
  | done {piece : Nat} {assembly : Assembly} {coming : Coming} :
      Collects around depth 0 piece assembly coming (.success, assembly)
        coming
  | skipped {remaining piece : Nat} {assembly : Assembly}
      {coming left : Coming} {answer : ExitCode × Assembly}
      (lost : coming.sends.head = false)
      (rest : Collects around depth remaining (piece + 1) assembly
        coming.sent answer left) :
      Collects around depth (remaining + 1) piece assembly coming answer left
  | failed {remaining piece : Nat} {assembly : Assembly} {coming : Coming}
      {finish : BodyEnd} {behind : ByteStream}
      (sent : coming.sends.head = true)
      (rounds : frameRounds depth coming.stream = some (finish, behind))
      (fails : finish.Fails) :
      Collects around depth (remaining + 1) piece assembly coming
        (.failure, assembly) ⟨coming.sends.tail, behind⟩
  | taken {remaining piece : Nat} {assembly after : Assembly}
      {coming left : Coming} {answer : ExitCode × Assembly}
      {body : List UInt8} {behind : ByteStream}
      {response : PeerMetadataResponse}
      (sent : coming.sends.head = true)
      (rounds : frameRounds depth coming.stream =
        some (.complete body, behind))
      (nonempty : body ≠ [])
      (responded : replyResponse (around.reply piece) body = .ok response)
      (placed : appendResponse assembly response = .ok after)
      (rest : Collects around depth remaining (piece + 1) after
        ⟨coming.sends.tail, behind⟩ answer left) :
      Collects around depth (remaining + 1) piece assembly coming answer left

section Reply

variable {body : List UInt8} {around : Surroundings} {socket : Socket}
  {fd depth : Nat} {behind : ByteStream}

theorem framedReply_holds (room : body.length ≤ bodyRoom) :
    HoldsFrame (bigEndian32 body.length ++ body)
      (.ofCells (framedReply body)) where
  size := by
    have roomSize : bodyRoom = 34812 := rfl
    have bufferSize : frameBufferSize = 34816 := rfl
    simp only [Buffer.ofCells, framedReply, List.length_append,
      bigEndian32_length, List.length_replicate]
    omega
  noStray := rfl
  start := List.take_left

/-- Only the frame decides what the response is. -/
theorem replyResponse_eq {four : List UInt8} {out : Buffer}
    (frame : HoldsFrame (four ++ body) out) (fourLength : four.length = 4)
    (announced : bigEndian four = body.length) (nonempty : body ≠ []) :
    peerMetadataResponseInit around out.cells =
      replyResponse around body := by
  have positive := List.length_pos_iff.mpr nonempty
  have small := frame.body_small
  have room : body.length ≤ bodyRoom := by
    have size := congrArg List.length frame.start
    have bufferSize : frameBufferSize = 34816 := rfl
    have roomSize : bodyRoom = 34812 := rfl
    rw [List.length_take, frame.size, List.length_append] at size
    omega
  have own := framedReply_holds room
  have ownLength := bigEndian32_length body.length
  have ownAnnounced : bigEndian (bigEndian32 body.length) = body.length :=
    bigEndian_bigEndian32 (by omega)
  by_cases long : 2 ≤ body.length
  · rw [peerMetadataResponseInit_search frame fourLength announced long]
    exact (peerMetadataResponseInit_search own ownLength ownAnnounced long
      around).symm
  · have single : body.length = 1 := by omega
    rw [peerMetadataResponseInit_tiny frame fourLength
      (announced.trans single)]
    exact (peerMetadataResponseInit_tiny own ownLength
      (ownAnnounced.trans single) around).symm

/-- The receive of a reply that arrives as a whole. -/
theorem peerMetadataPacketReceive_reply (nonempty : body ≠ [])
    (isOpen : socket.sockDesc = some fd)
    (rounds : frameRounds depth socket.stream =
      some (.complete body, behind)) :
    ∃ out log, (peerMetadataPacketReceive around depth).from socket =
      ((do
        let response ← replyResponse around body
        pure (some (out, response))),
        { socket with stream := behind, log := log }) := by
  rcases receiveFrame_complete (peerMetadataResponseInit around) nonempty
    isOpen rounds with ⟨out, log, frame, ran⟩
  rw [replyResponse_eq frame (framePrefix_length _)
    (frameRounds_complete rounds).1.symm nonempty] at ran
  exact ⟨out, log, ran⟩

end Reply

section Loop

variable {around : MetadataSurroundings} {depth fd remaining piece : Nat}
  {utMetadata : Int} {assembly : Assembly} {socket final : Socket}
  {answer : ExitCode × Assembly} {coming left : Coming}

/-- The socket is open, and that is still to come on it. -/
abbrev Expects (fd : Nat) (coming : Coming) (socket : Socket) : Prop :=
  Awaits fd coming.sends coming.stream socket

/-- And the loop answers with what it is to collect. -/
theorem Collects.ran
    (collects : Collects around depth remaining piece assembly coming answer
      left) (start : Expects fd coming socket) :
    ∃ final, Expects fd left final ∧
      (collectPieces around depth utMetadata remaining piece
        assembly).from socket = (.ok answer, final) := by
  induction collects generalizing socket with
  | done =>
      exact ⟨socket, start, rfl⟩
  | skipped lost rest inductionHypothesis =>
      rename_i remaining piece assembly coming left answer
      rcases start.send (peerMetadataRequestInit piece utMetadata).bytes
        with ⟨next, waits, asked⟩
      rcases inductionHypothesis waits with ⟨final, ends, ran⟩
      rw [lost] at asked
      refine ⟨final, ends, ?_⟩
      rw [collectPieces, bind_from_ok asked]
      exact ran
  | failed sent rounds fails =>
      rename_i remaining piece assembly coming finish behind
      rcases start.send (peerMetadataRequestInit piece utMetadata).bytes
        with ⟨next, waits, asked⟩
      rw [sent] at asked
      rw [← waits.stream] at rounds
      rcases @receiveFrame_fails next fd PeerMetadataResponse
        (peerMetadataResponseInit (around.reply piece)) depth behind finish
        fails waits.isOpen rounds with ⟨log, received⟩
      refine ⟨{ next with stream := behind, log := log },
        ⟨waits.isOpen, waits.sends, rfl⟩, ?_⟩
      rw [collectPieces, bind_from_ok asked]
      exact bind_from_ok received _
  | taken sent rounds nonempty responded placed rest inductionHypothesis =>
      rename_i remaining piece assembly longer coming left answer body behind
        response
      rcases start.send (peerMetadataRequestInit piece utMetadata).bytes
        with ⟨next, waits, asked⟩
      rw [sent] at asked
      rw [← waits.stream] at rounds
      rcases @peerMetadataPacketReceive_reply body (around.reply piece) next
        fd depth behind nonempty waits.isOpen rounds with
        ⟨out, log, received⟩
      rw [responded] at received
      have follows : Expects fd ⟨coming.sends.tail, behind⟩
          { next with stream := behind, log := log } :=
        ⟨waits.isOpen, waits.sends, rfl⟩
      rcases inductionHypothesis follows with ⟨final, ends, ran⟩
      refine ⟨final, ends, ?_⟩
      rw [collectPieces, bind_from_ok asked]
      exact (bind_from_ok received _).trans
        ((bind_from_ok (by rw [liftExec_from, placed]) _).trans ran)

/-- A loop that is let go deeper collects the same. -/
theorem Collects.deeper {deeper : Nat} (more : depth ≤ deeper)
    (collects : Collects around depth remaining piece assembly coming answer
      left) :
    Collects around deeper remaining piece assembly coming answer left := by
  induction collects with
  | done => exact .done
  | skipped lost rest inductionHypothesis =>
      exact .skipped lost inductionHypothesis
  | failed sent rounds fails =>
      exact .failed sent (frameRounds_deeper more rounds) fails
  | taken sent rounds nonempty responded placed rest inductionHypothesis =>
      exact .taken sent (frameRounds_deeper more rounds) nonempty responded
        placed inductionHypothesis

end Loop

end UvgTorrent
