import UvgTorrent.Peer.MetadataBounds

/-!
# Reassembling the metadata

A peer announced a blob and answers each request with a piece of it.  What
`Peer_get_metadata` hands on is never the blob: with each piece it copies as
many cells of a fresh block as the header of the message has bytes.  A run
in which a piece fails returns `EXIT_FAILURE` exactly when a receive fails,
and not before the pieces have left the array.
-/

namespace UvgTorrent

open CProgram CText CArray MachineInt NetStream

/-- The size of a piece, as the extended handshake sets it. -/
def metadataPieceSize : Nat := 16 * 1024

/-- The body of the data message for one piece of a blob. -/
def dataMessage (metadata : List UInt8) (extension : UInt8) (piece : Nat) :
    List UInt8 :=
  [20, extension] ++ text "d8:msg_typei1e5:piecei" ++ decimal piece ++
    text "e10:total_sizei" ++ decimal metadata.length ++ text "ee" ++
    (metadata.drop (metadataPieceSize * piece)).take metadataPieceSize

/-- The frames of the first `pieces` data messages. -/
def dataFrames (metadata : List UInt8) (extension : UInt8) (pieces : Nat) :
    List UInt8 :=
  (List.range pieces).flatMap fun piece =>
    bigEndian32 (dataMessage metadata extension piece).length ++
      dataMessage metadata extension piece

/-- The fields that the extended handshake sets for a peer that announced
the size of a blob. -/
structure Announced (metadata : List UInt8) (peer : Peer) : Prop where
  size : peer.metadataSize = metadata.length
  pieces : peer.numPieces = (metadata.length / metadataPieceSize : Nat)

/-- Every request is sent and answered by its piece; the answers may be cut
anywhere. -/
def Answers (metadata : List UInt8) (peer : Peer) : Prop :=
  (∀ piece < peer.numPieces.toNat,
    peer.socket.sends.get piece = true) ∧
  ∃ extension cuts rest, peer.socket.stream =
    .cutAt (dataFrames metadata extension peer.numPieces.toNat ++ rest) cuts

/-- The blob is handed to `bencode_init` and the call succeeds. -/
def HandsOver (metadata : List UInt8) (peer : Peer) : Prop :=
  ∀ around, ∃ depth assembly final after,
    (assembleMetadata around depth peer.metadataSize).from peer =
      (.ok (.success, assembly), final) ∧
    assembly.metadataPos = metadata.length ∧
    assembly.metaData.cells.take metadata.length = metadata ∧
    (peerGetMetadata around depth peer.metadataSize).from peer =
      (.ok .success, after)

/-- The send or the receive of some piece fails. -/
def SomePieceFails : Nat → Stream' Bool → ByteStream → Prop
  | 0, _, _ => False
  | remaining + 1, sends, stream =>
      if sends.head then
        (∃ finish behind, Reaches stream finish behind ∧ finish.Fails) ∨
        ∃ body behind, Reaches stream (.complete body) behind ∧
          body ≠ [] ∧ SomePieceFails remaining sends.tail behind
      else
        True

def ReturnsFailure (peer : Peer) : Prop :=
  ∀ around, ∃ depth final,
    (peerGetMetadata around depth peer.metadataSize).from peer =
      (.ok .failure, final)

def ReassemblesFaithfully (metadata : List UInt8) (peer : Peer) : Prop :=
  (Answers metadata peer → HandsOver metadata peer) ∧
  (SomePieceFails peer.numPieces.toNat peer.socket.sends
    peer.socket.stream → ReturnsFailure peer)

/-- Some receive fails, and the replies before it fit in the array. -/
def ReceiveFails (capacity : Nat) :
    Nat → Nat → Stream' Bool → ByteStream → Prop
  | 0, _, _, _ => False
  | remaining + 1, pos, sends, stream =>
      if sends.head then
        (∃ finish behind, Reaches stream finish behind ∧ finish.Fails) ∨
        ∃ body behind, Reaches stream (.complete body) behind ∧
          GoodReply body ∧ pos + (body.drop 2).length ≤ capacity ∧
          ReceiveFails capacity remaining (pos + (body.drop 2).length)
            sends.tail behind
      else
        ReceiveFails capacity remaining pos sends.tail stream

/-! ## The blob is never handed over -/

section Spoiled

variable {metadata : List UInt8} {capacity pos fd : Nat}
  {sends : Stream' Bool} {stream : ByteStream} {assembly : Assembly}
  {socket : Socket}

/-- Surroundings in which no cell of a fresh block holds the byte of the
blob at its index. -/
def contrary (metadata : List UInt8) : MetadataSurroundings where
  metaData := fun _ => 0
  reply := fun _ => ⟨3, fun index => metadata.getD index 0 + 1⟩
  order := .little

/-- Nothing was placed, or some cell does not hold the byte of the blob. -/
def Spoiled (metadata : List UInt8) (pos : Nat) (assembly : Assembly) :
    Prop :=
  pos = 0 ∨ ∃ index < pos,
    assembly.metaData.cells[index]? ≠ metadata[index]?

theorem contrary_differs (metadata : List UInt8) (index : Nat) :
    some (metadata.getD index 0 + 1) ≠ metadata[index]? := by
  cases held : metadata[index]? with
  | none => simp
  | some byte =>
      have value : metadata.getD index 0 = byte := by
        rw [List.getD_eq_getElem?_getD, held, Option.getD_some]
      rw [value]
      intro same
      have plusOne : byte + 1 = byte := Option.some.inj same
      simp at plusOne

theorem TakenFrom.junk {around : Surroundings} {body : List UInt8}
    {header : Nat} {response : PeerMetadataResponse}
    (taken : TakenFrom around body header response) :
    response.response[(body.drop 2).length - 1]? =
      some (around.junk ((body.drop 2).length - 1)) := by
  have lower := taken.header_pos
  have upper := taken.header_le
  have front : ((body.drop 2).drop header).length =
      (body.drop 2).length - header :=
    List.length_drop
  rw [taken.cells, List.getElem?_append_right (by omega), front,
    List.getElem?_drop]
  have index : (body.drop 2).length - header +
      ((body.drop 2).length - 1 - ((body.drop 2).length - header)) =
        (body.drop 2).length - 1 := by
    omega
  have inside : (body.drop 2).length - 1 < (body.drop 2).length + 1 := by
    omega
  rw [index]
  show ((List.range ((body.drop 2).length + 1)).map around.junk)[
    (body.drop 2).length - 1]? = _
  rw [List.getElem?_map, List.getElem?_range inside]
  rfl

/-- A piece that is placed spoils the array, and what is spoiled stays. -/
theorem spoiled_of_placed {body : List UInt8} {header : Nat}
    {response : PeerMetadataResponse} {piece : Nat} {after : Assembly}
    (taken : TakenFrom ((contrary metadata).reply piece) body header
      response)
    (held : HoldsPieces capacity pos assembly)
    (front : after.metaData.cells.take (pos + (body.drop 2).length) =
      assembly.metaData.cells.take pos ++
        response.response.take (body.drop 2).length)
    (spoiled : Spoiled metadata pos assembly) :
    Spoiled metadata (pos + (body.drop 2).length) after := by
  have lower := taken.header_pos
  have upper := taken.header_le
  rcases spoiled with start | ⟨index, before, wrong⟩
  · subst start
    have last : (body.drop 2).length - 1 < (body.drop 2).length := by
      omega
    refine .inr ⟨(body.drop 2).length - 1, by omega, ?_⟩
    rw [List.take_zero, List.nil_append, Nat.zero_add] at front
    rw [← List.getElem?_take_of_lt last, front,
      List.getElem?_take_of_lt last, taken.junk]
    exact contrary_differs metadata _
  · have still : index < pos + (body.drop 2).length := by omega
    have within : index < (assembly.metaData.cells.take pos).length := by
      have room := held.within
      rw [List.length_take, held.size]
      omega
    refine .inr ⟨index, still, ?_⟩
    rw [← List.getElem?_take_of_lt still, front,
      List.getElem?_append_left within, List.getElem?_take_of_lt before]
    exact wrong

/-- In contrary surroundings a loop that succeeds leaves a spoiled array. -/
theorem collectPieces_spoils (depth : Nat) (utMetadata : Int)
    (remaining piece : Nat) {final : Assembly}
    (held : HoldsPieces capacity pos assembly)
    (spoiled : Spoiled metadata pos assembly)
    (start : Awaits fd sends stream socket)
    (succeeded : ((collectPieces (contrary metadata) depth utMetadata
      remaining piece assembly).from socket).1 = .ok (.success, final)) :
    ∃ last, HoldsPieces capacity last final ∧
      Spoiled metadata last final := by
  induction remaining generalizing piece pos assembly sends stream socket with
  | zero =>
      cases succeeded
      exact ⟨pos, held, spoiled⟩
  | succ remaining inductionHypothesis =>
      rcases collectPieces_answers (fun _ => rfl) held start succeeded with
        ⟨_, next, follows, rest⟩ | ⟨_, failed, _⟩ |
        ⟨_, body, behind, response, header, after, next, _, _, _, taken,
          heldAfter, front, follows, rest⟩
      · exact inductionHypothesis (piece + 1) held spoiled follows rest
      · cases failed
      · exact inductionHypothesis (piece + 1) heldAfter
          (spoiled_of_placed taken held front spoiled) follows rest

end Spoiled

section Results

variable {metadata : List UInt8} {peer : Peer} {fd : Nat}

theorem assembleMetadata_answer {around : MetadataSurroundings}
    {depth : Nat} {metadataSize : Int} {code : ExitCode}
    {assembly : Assembly}
    (answered : ((assembleMetadata around depth metadataSize).from peer).1 =
      .ok (code, assembly)) :
    ∃ size collected, toInt32 (metadataSize * peer.numPieces) = (size : Nat) ∧
      size < 2 ^ 31 ∧
      ((collectPieces around depth peer.utMetadata peer.numPieces.toNat 0
        (newAssembly around size)).from peer.socket).1 =
          .ok (code, collected) ∧
      (code, assembly) = terminate (code, collected) := by
  by_cases negative : toInt32 (metadataSize * peer.numPieces) < 0
  · rw [assembleMetadata_badSize around depth negative] at answered
    cases answered
  · obtain ⟨size, sized, small⟩ := sized_nonneg metadataSize peer.numPieces
      (Int.not_lt.mp negative)
    rw [assembleMetadata_eq around depth sized] at answered
    cases ran : ((collectPieces around depth peer.utMetadata
        peer.numPieces.toNat 0 (newAssembly around size)).from
          peer.socket).1 with
    | error stop =>
        rw [ran] at answered
        cases answered
    | ok collected =>
        rcases collected with ⟨answer, collected⟩
        rw [ran] at answered
        cases answer with
        | failure =>
            cases answered
            exact ⟨size, _, sized, small, ran, rfl⟩
        | success =>
            cases answered
            exact ⟨size, _, sized, small, ran, rfl⟩

/-- No peer makes the function hand the blob over. -/
theorem not_handsOver (nonempty : metadata ≠ [])
    (isOpen : peer.socket.sockDesc = some fd) :
    ¬ HandsOver metadata peer := by
  intro handsOver
  obtain ⟨depth, assembly, _, _, ran, position, handed, _⟩ :=
    handsOver (contrary metadata)
  obtain ⟨size, collected, sized, small, answered, terminated⟩ :=
    assembleMetadata_answer (by rw [ran])
  obtain ⟨last, held, spoiled⟩ := collectPieces_spoils depth
    peer.utMetadata peer.numPieces.toNat 0
    (newAssembly_holds (contrary metadata) small) (.inl rfl)
    (awaits_open isOpen) answered
  cases terminated
  have length : last = metadata.length := by
    have same := held.position
    have here : collected.metadataPos = metadata.length := position
    omega
  rcases spoiled with nothing | ⟨index, before, wrong⟩
  · have positive := List.length_pos_iff.mpr nonempty
    omega
  · have other : (collected.metadataPos + 1).toNat ≠ index := by
      have same := held.position
      omega
    refine wrong ?_
    rw [← Buffer.store_getElem?_of_ne collected.metaData other 0,
      ← List.getElem?_take_of_lt (length ▸ before)]
    exact congrArg (·[index]?) handed

/-! ## Which runs return a failure -/

theorem peerGetMetadata_failure_iff {around : MetadataSurroundings}
    {depth : Nat} {metadataSize : Int} :
    ((peerGetMetadata around depth metadataSize).from peer).1 =
        .ok .failure ↔
      ∃ assembly, ((assembleMetadata around depth metadataSize).from peer).1 =
        .ok (.failure, assembly) := by
  rw [peerGetMetadata, bind_from]
  cases ran : (assembleMetadata around depth metadataSize).from peer with
  | mk answer after =>
      cases answer with
      | error stop => simp
      | ok collected =>
          rcases collected with ⟨code, assembly⟩
          cases code with
          | failure => simp
          | success =>
              simp only [bind_from, liftExec_from]
              cases consumed : consumeInfo around.order depth assembly with
              | error stop => simp
              | ok answer =>
                  simp [consumeInfo_success consumed]

theorem receiveFails_of_failure {capacity pos : Nat} {sends : Stream' Bool}
    {stream : ByteStream} {assembly final : Assembly} {socket : Socket}
    (depth : Nat) (utMetadata : Int) (remaining piece : Nat)
    (held : HoldsPieces capacity pos assembly)
    (start : Awaits fd sends stream socket)
    (failed : ((collectPieces nearNull depth utMetadata remaining piece
      assembly).from socket).1 = .ok (.failure, final)) :
    ReceiveFails capacity remaining pos sends stream := by
  induction remaining generalizing piece pos assembly sends stream socket with
  | zero =>
      cases failed
  | succ remaining inductionHypothesis =>
      rw [ReceiveFails]
      rcases collectPieces_answers (fun _ => rfl) held start failed with
        ⟨lost, next, follows, rest⟩ | ⟨sent, _, fails⟩ |
        ⟨sent, body, behind, response, header, after, next, reaches, good,
          room, _, heldAfter, _, follows, rest⟩
      · rw [lost]
        exact inductionHypothesis (piece + 1) held follows rest
      · rw [if_pos sent]
        exact .inl fails
      · rw [if_pos sent]
        exact .inr ⟨body, behind, reaches, good, room,
          inductionHypothesis (piece + 1) heldAfter follows rest⟩

theorem failure_of_receiveFails {capacity pos : Nat}
    {sends : Stream' Bool} {stream : ByteStream}
    (around : MetadataSurroundings) (fd : Nat) (utMetadata : Int)
    (remaining : Nat)
    (fails : ReceiveFails capacity remaining pos sends stream) :
    ∃ enough, ∀ depth, enough ≤ depth → ∀ piece assembly socket,
      HoldsPieces capacity pos assembly → Awaits fd sends stream socket →
      ∃ final, ((collectPieces around depth utMetadata remaining piece
        assembly).from socket).1 = .ok (.failure, final) := by
  induction remaining generalizing pos sends stream with
  | zero =>
      cases fails
  | succ remaining inductionHypothesis =>
      rw [ReceiveFails] at fails
      cases sent : sends.head with
      | false =>
          rw [sent] at fails
          rcases inductionHypothesis fails with ⟨enough, failing⟩
          refine ⟨enough, fun depth more piece assembly socket held start =>
            ?_⟩
          rcases collectPieces_skipped start sent with ⟨next, after, step⟩
          rw [step]
          exact failing depth more (piece + 1) assembly next held after
      | true =>
          rw [if_pos sent] at fails
          rcases fails with ⟨finish, behind, ⟨enough, rounds⟩, failing⟩ |
            ⟨body, behind, ⟨enough, rounds⟩, good, room, rest⟩
          · refine ⟨enough, fun depth more piece assembly socket held start =>
              ?_⟩
            obtain ⟨final, ran⟩ := collectPieces_fails failing start sent
              (frameRounds_deeper more rounds)
            exact ⟨assembly, by rw [ran]⟩
          · rcases inductionHypothesis rest with ⟨later, failing⟩
            refine ⟨max enough later,
              fun depth more piece assembly socket held start => ?_⟩
            obtain ⟨_, _, after, next, _, heldAfter, _, follows, step⟩ :=
              collectPieces_good start sent good
                (frameRounds_deeper
                  (Nat.le_trans (Nat.le_max_left enough later) more) rounds)
                held room
            rw [step]
            exact failing depth
              (Nat.le_trans (Nat.le_max_right enough later) more)
              (piece + 1) after next heldAfter follows

/-- The function returns a failure exactly when the size of the array is not
negative and a receive fails before the pieces leave the array. -/
theorem returnsFailure_iff (isOpen : peer.socket.sockDesc = some fd) :
    ReturnsFailure peer ↔
      0 ≤ toInt32 (peer.metadataSize * peer.numPieces) ∧
      ReceiveFails (toInt32 (peer.metadataSize * peer.numPieces)).toNat
        peer.numPieces.toNat 0 peer.socket.sends peer.socket.stream := by
  constructor
  · intro returns
    rcases returns nearNull with ⟨depth, final, ran⟩
    obtain ⟨assembly, answered⟩ :=
      peerGetMetadata_failure_iff.mp (by rw [ran])
    obtain ⟨size, collected, sized, small, failed, _⟩ :=
      assembleMetadata_answer answered
    rw [sized, Int.toNat_natCast]
    exact ⟨Int.natCast_nonneg size, receiveFails_of_failure depth
      peer.utMetadata peer.numPieces.toNat 0
      (newAssembly_holds nearNull small) (awaits_open isOpen) failed⟩
  · rintro ⟨positive, fails⟩ around
    rcases sized_nonneg _ _ positive with ⟨size, sized, small⟩
    rw [sized, Int.toNat_natCast] at fails
    obtain ⟨enough, failing⟩ := failure_of_receiveFails around fd
      peer.utMetadata peer.numPieces.toNat fails
    obtain ⟨final, failed⟩ := failing enough (Nat.le_refl _) 0 _ peer.socket
      (newAssembly_holds around small) (awaits_open isOpen)
    have answered : ((assembleMetadata around enough
        peer.metadataSize).from peer).1 = .ok (.failure, final) := by
      rw [assembleMetadata_eq around enough sized, failed]
      rfl
    have returned := peerGetMetadata_failure_iff.mpr ⟨final, answered⟩
    exact ⟨enough, _, Prod.ext returned rfl⟩

/-- Reassembly is faithful to no blob whose pieces are all answered, and to
a run in which a piece fails exactly when a receive fails in range. -/
theorem reassemblesFaithfully_iff (nonempty : metadata ≠ [])
    (announced : Announced metadata peer)
    (isOpen : peer.socket.sockDesc = some fd) :
    ReassemblesFaithfully metadata peer ↔
      ¬ Answers metadata peer ∧
      (SomePieceFails peer.numPieces.toNat peer.socket.sends
          peer.socket.stream →
        0 ≤ toInt32 (metadata.length * peer.numPieces) ∧
        ReceiveFails (toInt32 (metadata.length * peer.numPieces)).toNat
          peer.numPieces.toNat 0 peer.socket.sends peer.socket.stream) := by
  rw [ReassemblesFaithfully, returnsFailure_iff isOpen, announced.size]
  constructor
  · rintro ⟨whole, failing⟩
    exact ⟨fun answers => not_handsOver nonempty isOpen (whole answers),
      failing⟩
  · rintro ⟨unanswered, failing⟩
    exact ⟨fun answers => absurd answers unanswered, failing⟩

end Results

def twoPieces : List UInt8 :=
  List.replicate 32768 0

/-- A peer that announced the blob and sends its two pieces. -/
def answeringPeer : Peer where
  socket := openSocket (.cutAt (dataFrames twoPieces 1 2 ++ []) (.const 3))
  utMetadata := 1
  metadataSize := 32768
  numPieces := 2
  pieceSize := 16384

theorem twoPieces_length : twoPieces.length = 32768 :=
  List.length_replicate

theorem twoPieces_nonempty : twoPieces ≠ [] := by
  have length := twoPieces_length
  intro empty
  rw [empty] at length
  cases length

theorem answeringPeer_announced : Announced twoPieces answeringPeer where
  size := by
    rw [twoPieces_length]
    rfl
  pieces := by
    rw [twoPieces_length]
    rfl

theorem answeringPeer_answers : Answers twoPieces answeringPeer :=
  ⟨fun _ _ => rfl, 1, .const 3, [], rfl⟩

theorem reassemblesFaithfully_iff_twoPieces :
    ReassemblesFaithfully twoPieces answeringPeer ↔
      ¬ Answers twoPieces answeringPeer ∧
      (SomePieceFails answeringPeer.numPieces.toNat
          answeringPeer.socket.sends answeringPeer.socket.stream →
        0 ≤ toInt32 (twoPieces.length * answeringPeer.numPieces) ∧
        ReceiveFails
          (toInt32 (twoPieces.length * answeringPeer.numPieces)).toNat
          answeringPeer.numPieces.toNat 0 answeringPeer.socket.sends
          answeringPeer.socket.stream) :=
  reassemblesFaithfully_iff twoPieces_nonempty answeringPeer_announced rfl

theorem reassembly_spoils_twoPieces :
    twoPieces ≠ [] ∧ Announced twoPieces answeringPeer ∧
      Answers twoPieces answeringPeer ∧
      ¬ ReassemblesFaithfully twoPieces answeringPeer :=
  ⟨twoPieces_nonempty, answeringPeer_announced, answeringPeer_answers,
    fun faithful => not_handsOver twoPieces_nonempty rfl
      (faithful.1 answeringPeer_answers)⟩

end UvgTorrent
