import UvgTorrent.Peer.FrameRounds
import UvgTorrent.Peer.Metadata

/-!
# One reply of the metadata exchange

What the receive of a reply comes to for each way its rounds can end, and
what the loop over the pieces does next.
-/

namespace UvgTorrent

open CProgram CText CArray MachineInt NetStream

section Reply

variable {socket : Socket} {fd depth : Nat} {around : Surroundings}
  {body : List UInt8} {behind : ByteStream}

/-- A reply that the response can be taken from. -/
structure GoodReply (body : List UInt8) : Prop where
  long : 2 ≤ body.length
  ends : HoldsHeaderEnd body

theorem GoodReply.nonempty (good : GoodReply body) : body ≠ [] := by
  have long := good.long
  intro empty
  rw [empty] at long
  cases long

/-- What is taken from a reply: the bytes behind its header, then cells of
the fresh block, as many as the header has bytes. -/
structure TakenFrom (around : Surroundings) (body : List UInt8)
    (header : Nat) (response : PeerMetadataResponse) : Prop where
  header_pos : 2 ≤ header
  header_le : header ≤ (body.drop 2).length
  cells : response.response = (body.drop 2).drop header ++
    (around.block ((body.drop 2).length + 1)).cells.drop
      ((body.drop 2).length - header)
  length : response.responseLen = (body.drop 2).length

theorem peerMetadataPacketReceive_good (good : GoodReply body)
    (isOpen : socket.sockDesc = some fd)
    (rounds : frameRounds depth socket.stream =
      some (.complete body, behind)) :
    ∃ out response header log, TakenFrom around body header response ∧
      (peerMetadataPacketReceive around depth).from socket =
        (.ok (some (out, response)),
          { socket with stream := behind, log := log }) := by
  obtain ⟨out, log, frame, ran⟩ := receiveFrame_complete
    (peerMetadataResponseInit around) good.nonempty isOpen rounds
  obtain ⟨header, lower, upper, responded⟩ := peerMetadataResponseInit_found
    frame (framePrefix_length _) (frameRounds_complete rounds).1.symm good.long
    good.ends around
  rw [responded] at ran
  exact ⟨out, _, header, log, ⟨lower, upper, rfl, rfl⟩, ran⟩

/-- A nonempty reply that is not good is read outside its array, from some
addresses of that array. -/
theorem peerMetadataPacketReceive_bad (bad : ¬ GoodReply body)
    (nonempty : body ≠ []) (near : around.address = 3)
    (isOpen : socket.sockDesc = some fd)
    (rounds : frameRounds depth socket.stream =
      some (.complete body, behind)) :
    ((peerMetadataPacketReceive around depth).from socket).1 =
      .error .readPast := by
  obtain ⟨out, log, frame, ran⟩ := receiveFrame_complete
    (peerMetadataResponseInit around) nonempty isOpen rounds
  have announced : bigEndian (framePrefix socket.stream) = body.length :=
    (frameRounds_complete rounds).1.symm
  have length := framePrefix_length socket.stream
  have stops : peerMetadataResponseInit around out.cells =
      .error .readPast := by
    by_cases long : 2 ≤ body.length
    · have missing : ¬ HoldsHeaderEnd body := fun ends => bad ⟨long, ends⟩
      have outside := not_nullInside_three (body.drop 2).length
      rw [← near] at outside
      exact peerMetadataResponseInit_missing frame length announced long
        missing around outside
    · have positive := List.length_pos_iff.mpr nonempty
      exact peerMetadataResponseInit_tiny frame length (by omega) around
  rw [peerMetadataPacketReceive, ran, stops]
  rfl

end Reply

/-! ## The loop over the pieces -/

/-- The first `pos` cells of an array of `capacity` cells are filled. -/
structure HoldsPieces (capacity pos : Nat) (assembly : Assembly) :
    Prop where
  size : assembly.metaData.cells.length = capacity
  noStray : assembly.metaData.stray = []
  position : assembly.metadataPos = pos
  within : pos ≤ capacity
  small : capacity < 2 ^ 31

section Append

variable {around : Surroundings} {body : List UInt8} {header : Nat}
  {response : PeerMetadataResponse} {capacity pos : Nat}
  {assembly : Assembly}

theorem TakenFrom.response_length
    (taken : TakenFrom around body header response) :
    response.response.length = (body.drop 2).length + 1 := by
  have upper := taken.header_le
  simp only [taken.cells, List.length_append, List.length_drop,
    Surroundings.block_length] at upper ⊢
  omega

theorem TakenFrom.slice (taken : TakenFrom around body header response)
    (small : (body.drop 2).length < 2 ^ 31) :
    CText.slice response.response 0 (toSize response.responseLen) =
      .ok (response.response.take (body.drop 2).length) := by
  have size : toSize response.responseLen = (body.drop 2).length := by
    rw [taken.length]
    exact toSize_natCast (by omega)
  rw [size, slice_of_le, List.drop_zero]
  rw [taken.response_length]
  omega

theorem appendResponse_fits (taken : TakenFrom around body header response)
    (held : HoldsPieces capacity pos assembly)
    (fits : pos + (body.drop 2).length ≤ capacity) :
    ∃ after, appendResponse assembly response = .ok after ∧
      HoldsPieces capacity (pos + (body.drop 2).length) after ∧
      after.metaData.cells.take (pos + (body.drop 2).length) =
        assembly.metaData.cells.take pos ++
          response.response.take (body.drop 2).length := by
  have small := held.small
  have bytes : (response.response.take (body.drop 2).length).length =
      (body.drop 2).length := by
    rw [List.length_take, taken.response_length]
    omega
  have inside : pos + (response.response.take
      (body.drop 2).length).length ≤ assembly.metaData.cells.length := by
    rw [bytes, held.size]
    exact fits
  have front : (assembly.metaData.cells.take pos ++
      response.response.take (body.drop 2).length).length =
        pos + (body.drop 2).length := by
    rw [List.length_append, List.length_take, bytes, held.size,
      Nat.min_eq_left held.within]
  have moved : toInt32 (assembly.metadataPos + response.responseLen) =
      (pos + (body.drop 2).length : Nat) := by
    rw [held.position, taken.length, toInt32_of_range] <;> omega
  refine ⟨_, by
    rw [appendResponse, taken.slice (by omega), ok_bind, held.position,
      Buffer.copyAt_natCast, Buffer.copyIn_of_le inside, ok_bind, pure_exec,
      ← held.position, moved], ?_, ?_⟩
  · constructor
    case size =>
      show (assembly.metaData.cells.take pos ++
        response.response.take (body.drop 2).length ++
          assembly.metaData.cells.drop (pos + (response.response.take
            (body.drop 2).length).length)).length = capacity
      have size := held.size
      rw [List.length_append, front, bytes]
      simp only [List.length_drop] at fits ⊢
      omega
    case noStray =>
      exact held.noStray
    case position =>
      rfl
    case within =>
      exact fits
    case small =>
      exact small
  · rw [← front]
    exact List.take_left

theorem appendResponse_overrun
    (taken : TakenFrom around body header response)
    (held : HoldsPieces capacity pos assembly)
    (small : (body.drop 2).length < 2 ^ 31)
    (overruns : capacity < pos + (body.drop 2).length) :
    appendResponse assembly response = .error .writePast := by
  have bytes : (response.response.take (body.drop 2).length).length =
      (body.drop 2).length := by
    rw [List.length_take, taken.response_length]
    omega
  have outside : assembly.metaData.cells.length <
      pos + (response.response.take (body.drop 2).length).length := by
    rw [bytes, held.size]
    exact overruns
  rw [appendResponse, taken.slice small, ok_bind, held.position,
    Buffer.copyAt_natCast, Buffer.copyIn_of_lt outside, error_bind]

end Append

/-- The socket is open, with these sends and this stream still to come. -/
structure Awaits (fd : Nat) (sends : Stream' Bool) (stream : ByteStream)
    (socket : Socket) : Prop where
  isOpen : socket.sockDesc = some fd
  sends : socket.sends = sends
  stream : socket.stream = stream

section Collect

variable {around : MetadataSurroundings} {depth fd remaining piece : Nat}
  {utMetadata : Int} {assembly : Assembly} {socket : Socket}
  {sends : Stream' Bool} {stream behind : ByteStream} {body : List UInt8}

theorem Awaits.send (start : Awaits fd sends stream socket)
    (message : List UInt8) :
    ∃ next, Awaits fd sends.tail stream next ∧
      (socketSend message).from socket =
        (.ok (if sends.head then .success else .failure), next) := by
  have ran := socketSend_from start.isOpen message
  rw [start.sends] at ran
  refine ⟨_, ⟨?_, ?_, ?_⟩, ran⟩
  · exact start.isOpen
  · rfl
  · exact start.stream

theorem collectPieces_skipped (start : Awaits fd sends stream socket)
    (lost : sends.head = false) :
    ∃ next, Awaits fd sends.tail stream next ∧
      (collectPieces around depth utMetadata (remaining + 1) piece
        assembly).from socket =
      (collectPieces around depth utMetadata remaining (piece + 1)
        assembly).from next := by
  rcases start.send (peerMetadataRequestInit piece utMetadata).bytes with
    ⟨next, waits, ran⟩
  rw [lost] at ran
  exact ⟨next, waits, bind_from_ok ran _⟩

/-- What follows a `send` that succeeds. -/
def awaitReply (around : MetadataSurroundings) (depth : Nat)
    (utMetadata : Int) (remaining piece : Nat) (assembly : Assembly)
    (reply : Option (Buffer × PeerMetadataResponse)) :
    Prog Socket (ExitCode × Assembly) :=
  match reply with
  | some (_, response) => do
      let assembly ← liftExec (appendResponse assembly response)
      collectPieces around depth utMetadata remaining (piece + 1) assembly
  | none => pure (.failure, assembly)

theorem collectPieces_sent (start : Awaits fd sends stream socket)
    (sent : sends.head = true) :
    ∃ next, Awaits fd sends.tail stream next ∧
      (collectPieces around depth utMetadata (remaining + 1) piece
        assembly).from socket =
      (peerMetadataPacketReceive (around.reply piece) depth >>=
        awaitReply around depth utMetadata remaining piece assembly).from
          next := by
  rcases start.send (peerMetadataRequestInit piece utMetadata).bytes with
    ⟨next, waits, ran⟩
  rw [sent] at ran
  exact ⟨next, waits, bind_from_ok ran _⟩

theorem collectPieces_unfinished (start : Awaits fd sends stream socket)
    (sent : sends.head = true) (rounds : frameRounds depth stream = none) :
    ((collectPieces around depth utMetadata (remaining + 1) piece
      assembly).from socket).1 = .error .unfinished := by
  rcases collectPieces_sent start sent with ⟨next, start, step⟩
  rw [← start.stream] at rounds
  rw [step]
  exact bind_from_stops (receiveFrame_unfinished start.isOpen rounds) _

theorem collectPieces_overrun (start : Awaits fd sends stream socket)
    (sent : sends.head = true)
    (rounds : frameRounds depth stream = some (.overrun, behind)) :
    ((collectPieces around depth utMetadata (remaining + 1) piece
      assembly).from socket).1 = .error .writePast := by
  rcases collectPieces_sent start sent with ⟨next, start, step⟩
  rw [← start.stream] at rounds
  rw [step]
  exact bind_from_stops (receiveFrame_overrun start.isOpen rounds) _

theorem collectPieces_bad (start : Awaits fd sends stream socket)
    (sent : sends.head = true) (bad : ¬ GoodReply body)
    (nonempty : body ≠ []) (near : (around.reply piece).address = 3)
    (rounds : frameRounds depth stream = some (.complete body, behind)) :
    ((collectPieces around depth utMetadata (remaining + 1) piece
      assembly).from socket).1 = .error .readPast := by
  rcases collectPieces_sent start sent with ⟨next, start, step⟩
  rw [← start.stream] at rounds
  rw [step]
  exact bind_from_stops
    (peerMetadataPacketReceive_bad bad nonempty near start.isOpen rounds) _

theorem collectPieces_fails {finish : BodyEnd} (fails : finish.Fails)
    (start : Awaits fd sends stream socket) (sent : sends.head = true)
    (rounds : frameRounds depth stream = some (finish, behind)) :
    ∃ final, (collectPieces around depth utMetadata (remaining + 1) piece
      assembly).from socket = (.ok (.failure, assembly), final) := by
  rcases collectPieces_sent start sent with ⟨next, start, step⟩
  rw [← start.stream] at rounds
  rcases receiveFrame_fails fails start.isOpen rounds with ⟨log, ran⟩
  rw [step, peerMetadataPacketReceive, bind_from_ok ran]
  exact ⟨_, rfl⟩

variable {capacity pos : Nat}

theorem collectPieces_good (start : Awaits fd sends stream socket)
    (sent : sends.head = true) (good : GoodReply body)
    (rounds : frameRounds depth stream = some (.complete body, behind))
    (held : HoldsPieces capacity pos assembly)
    (fits : pos + (body.drop 2).length ≤ capacity) :
    ∃ response header after next,
      TakenFrom (around.reply piece) body header response ∧
      HoldsPieces capacity (pos + (body.drop 2).length) after ∧
      after.metaData.cells.take (pos + (body.drop 2).length) =
        assembly.metaData.cells.take pos ++
          response.response.take (body.drop 2).length ∧
      Awaits fd sends.tail behind next ∧
      (collectPieces around depth utMetadata (remaining + 1) piece
        assembly).from socket =
      (collectPieces around depth utMetadata remaining (piece + 1)
        after).from next := by
  rcases collectPieces_sent start sent with ⟨next, start, step⟩
  rw [← start.stream] at rounds
  obtain ⟨out, response, header, log, taken, ran⟩ :=
    peerMetadataPacketReceive_good good start.isOpen rounds
  obtain ⟨after, placed, heldAfter, front⟩ :=
    appendResponse_fits taken held fits
  refine ⟨response, header, after,
    { next with stream := behind, log := log }, taken, heldAfter, front,
    ⟨start.isOpen, start.sends, rfl⟩, ?_⟩
  rw [step, bind_from_ok ran]
  exact bind_from_ok (by rw [liftExec_from, placed]) _

theorem collectPieces_outgrown (start : Awaits fd sends stream socket)
    (sent : sends.head = true) (good : GoodReply body)
    (rounds : frameRounds depth stream = some (.complete body, behind))
    (held : HoldsPieces capacity pos assembly)
    (overruns : capacity < pos + (body.drop 2).length) :
    ((collectPieces around depth utMetadata (remaining + 1) piece
      assembly).from socket).1 = .error .writePast := by
  rcases collectPieces_sent start sent with ⟨next, start, step⟩
  rw [← start.stream] at rounds
  obtain ⟨out, response, header, log, taken, ran⟩ :=
    peerMetadataPacketReceive_good good start.isOpen rounds
  have room := (frameRounds_complete rounds).2
  have roomSize : bodyRoom = 34812 := rfl
  have shorter : (body.drop 2).length = body.length - 2 :=
    List.length_drop
  have stops := appendResponse_overrun taken held (by omega) overruns
  rw [step, bind_from_ok ran]
  exact bind_from_stops (by rw [liftExec_from, stops]) _

/-- What one round of the loop comes to when it answers at all, in
surroundings that let no bad reply pass. -/
theorem collectPieces_answers {around : MetadataSurroundings}
    (near : ∀ piece, (around.reply piece).address = 3)
    {depth remaining piece : Nat} {utMetadata : Int}
    {answer : ExitCode × Assembly}
    (held : HoldsPieces capacity pos assembly)
    (start : Awaits fd sends stream socket)
    (answered : ((collectPieces around depth utMetadata (remaining + 1) piece
      assembly).from socket).1 = .ok answer) :
    (sends.head = false ∧ ∃ next, Awaits fd sends.tail stream next ∧
      ((collectPieces around depth utMetadata remaining (piece + 1)
        assembly).from next).1 = .ok answer) ∨
    (sends.head = true ∧ answer = (.failure, assembly) ∧
      ∃ finish behind, Reaches stream finish behind ∧ finish.Fails) ∨
    (sends.head = true ∧ ∃ body behind response header after next,
      Reaches stream (.complete body) behind ∧ GoodReply body ∧
      pos + (body.drop 2).length ≤ capacity ∧
      TakenFrom (around.reply piece) body header response ∧
      HoldsPieces capacity (pos + (body.drop 2).length) after ∧
      after.metaData.cells.take (pos + (body.drop 2).length) =
        assembly.metaData.cells.take pos ++
          response.response.take (body.drop 2).length ∧
      Awaits fd sends.tail behind next ∧
      ((collectPieces around depth utMetadata remaining (piece + 1)
        after).from next).1 = .ok answer) := by
  cases sent : sends.head with
  | false =>
      rcases collectPieces_skipped start sent with ⟨next, after, step⟩
      rw [step] at answered
      exact .inl ⟨rfl, next, after, answered⟩
  | true =>
      refine .inr ?_
      cases rounds : frameRounds depth stream with
      | none =>
          rw [collectPieces_unfinished start sent rounds] at answered
          cases answered
      | some finished =>
          rcases finished with ⟨finish, behind⟩
          by_cases fails : finish.Fails
          · rcases collectPieces_fails fails start sent rounds with ⟨_, ran⟩
            rw [ran] at answered
            cases answered
            exact .inl ⟨rfl, rfl, finish, behind, ⟨depth, rounds⟩, fails⟩
          · cases finish with
            | broken =>
                exact absurd (.inl rfl) fails
            | overrun =>
                rw [collectPieces_overrun start sent rounds] at answered
                cases answered
            | complete body =>
                have nonempty : body ≠ [] := fun empty =>
                  fails (.inr (by rw [empty]))
                by_cases good : GoodReply body
                · by_cases room : pos + (body.drop 2).length ≤ capacity
                  · obtain ⟨response, header, after, next, taken, heldAfter,
                      front, follows, step⟩ :=
                        collectPieces_good start sent good rounds held room
                    rw [step] at answered
                    exact .inr ⟨rfl, body, behind, response, header, after,
                      next, ⟨depth, rounds⟩, good, room, taken, heldAfter,
                      front, follows, answered⟩
                  · rw [collectPieces_outgrown start sent good rounds held
                      (Nat.not_le.mp room)] at answered
                    cases answered
                · rw [collectPieces_bad start sent good nonempty (near piece)
                    rounds] at answered
                  cases answered

end Collect

section Assemble

variable {peer : Peer} {metadataSize : Int} {fd : Nat}

theorem newAssembly_holds (around : MetadataSurroundings) {size : Nat}
    (small : size < 2 ^ 31) :
    HoldsPieces size 0 (newAssembly around size) where
  size := by simp [newAssembly, Buffer.ofCells]
  noStray := rfl
  position := rfl
  within := Nat.zero_le size
  small := small

theorem sized_nonneg (metadataSize pieces : Int)
    (positive : 0 ≤ toInt32 (metadataSize * pieces)) :
    ∃ size : Nat, toInt32 (metadataSize * pieces) = size ∧
      size < 2 ^ 31 := by
  have upper := toInt32_upper (metadataSize * pieces)
  exact ⟨(toInt32 (metadataSize * pieces)).toNat, by omega, by omega⟩

theorem assembleMetadata_from (around : MetadataSurroundings) (depth : Nat)
    {size : Nat} (sized : toInt32 (metadataSize * peer.numPieces) = size) :
    (assembleMetadata around depth metadataSize).from peer =
      (((collectPieces around depth peer.utMetadata peer.numPieces.toNat 0
          (newAssembly around size)).from peer.socket).1.map terminate,
        { peer with socket := ((collectPieces around depth peer.utMetadata
          peer.numPieces.toNat 0 (newAssembly around size)).from
            peer.socket).2 }) := by
  have positive : ¬ (size : Int) < 0 := by omega
  simp only [assembleMetadata, bind_from, getState_from, sized,
    if_neg positive, onSocket_from, Int.toNat_natCast]
  cases ((collectPieces around depth peer.utMetadata peer.numPieces.toNat 0
    (newAssembly around size)).from peer.socket).1 <;> rfl

theorem assembleMetadata_eq (around : MetadataSurroundings) (depth : Nat)
    {size : Nat} (sized : toInt32 (metadataSize * peer.numPieces) = size) :
    ((assembleMetadata around depth metadataSize).from peer).1 =
      ((collectPieces around depth peer.utMetadata peer.numPieces.toNat 0
        (newAssembly around size)).from peer.socket).1.map terminate := by
  rw [assembleMetadata_from around depth sized]

theorem assembleMetadata_badSize (around : MetadataSurroundings)
    (depth : Nat) (negative : toInt32 (metadataSize * peer.numPieces) < 0) :
    ((assembleMetadata around depth metadataSize).from peer).1 =
      .error .badSize := by
  simp only [assembleMetadata, bind_from, getState_from, if_pos negative,
    liftExec_from]

theorem awaits_open (isOpen : peer.socket.sockDesc = some fd) :
    Awaits fd peer.socket.sends peer.socket.stream peer.socket :=
  ⟨isOpen, rfl, rfl⟩

end Assemble

end UvgTorrent
