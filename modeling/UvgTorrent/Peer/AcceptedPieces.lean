import UvgTorrent.Library.Bencode
import UvgTorrent.Peer.MetadataBounds
import UvgTorrent.Peer.Segmentation

/-!
# The replies that are accepted

Neither the receive nor the loop over the pieces looks at what kind of
message has arrived.  A message is accepted when it is long enough and the
search for the end of its header comes to a place inside it.
-/

namespace UvgTorrent

open CProgram CText CArray MachineInt NetStream BencodeFormat

/-! ## What should be accepted -/

/-- A message of the extension protocol with data for a piece. -/
structure DataMessage (pieceNum : Nat) where
  extension : UInt8
  header : Dictionary
  payload : List UInt8
  isData : (text "msg_type", encodeInteger 1) ∈ header.entries
  isPiece : (text "piece", encodeInteger pieceNum) ∈ header.entries

def DataMessage.body {pieceNum : Nat} (message : DataMessage pieceNum) :
    List UInt8 :=
  20 :: message.extension :: (message.header.bytes ++ message.payload)

def DataFor (pieceNum : Nat) (body : List UInt8) : Prop :=
  ∃ message : DataMessage pieceNum, message.body = body

/-- The next frame of a stream, which arrives as a whole if it fits. -/
structure NextFrame (stream : ByteStream) (body : List UInt8) : Prop where
  announced : announcedLength stream = body.length
  arrives : body.length ≤ bodyRoom →
    ∃ behind, Reaches stream (.complete body) behind

/-- The reply to a request is accepted only if it is data for the piece, and
no other reply changes what is assembled. -/
structure AcceptsOnly (around : MetadataSurroundings) (stream : ByteStream)
    (pieceNum : Nat) (body : List UInt8) : Prop where
  accepted : ∀ depth fd socket received final,
    socket.sockDesc = some fd → socket.stream = stream →
    (peerMetadataPacketReceive (around.reply pieceNum) depth).from socket =
      (.ok (some received), final) →
    DataFor pieceNum body
  ignored : ¬ DataFor pieceNum body →
    ∀ depth fd sends utMetadata remaining assembly socket answer,
      Awaits fd sends stream socket → sends.head = true →
      ((collectPieces around depth utMetadata (remaining + 1) pieceNum
        assembly).from socket).1 = .ok answer →
      answer.2 = assembly

/-! ## What is accepted -/

/-- The messages that are not accepted: the short ones, those that the array
cannot hold, and those without the end of a header when the address of the
array lies far from `NULL`. -/
def Refused (around : Surroundings) (body : List UInt8) : Prop :=
  body.length < 2 ∨ bodyRoom < body.length ∨
    ¬ HoldsHeaderEnd body ∧
      ¬ NullInside around.address (body.drop 2).length

section Response

variable {four body : List UInt8} {out : Buffer}

/-- A response is made of a message exactly when it is not refused. -/
theorem peerMetadataResponseInit_responds_iff
    (frame : HoldsFrame (four ++ body) out) (fourLength : four.length = 4)
    (announced : bigEndian four = body.length) (nonempty : body ≠ [])
    (room : body.length ≤ bodyRoom) (around : Surroundings) :
    (∃ response,
        peerMetadataResponseInit around out.cells = .ok response) ↔
      ¬ Refused around body := by
  have positive := List.length_pos_iff.mpr nonempty
  constructor
  · intro responds refused
    rcases responds with ⟨response, responded⟩
    rcases refused with short | large | missing
    · rw [peerMetadataResponseInit_tiny frame fourLength (by omega)]
        at responded
      cases responded
    · omega
    · by_cases long : 2 ≤ body.length
      · rw [peerMetadataResponseInit_missing frame fourLength announced long
          missing.1 around missing.2] at responded
        cases responded
      · rw [peerMetadataResponseInit_tiny frame fourLength (by omega)]
          at responded
        cases responded
  · intro notRefused
    have long : 2 ≤ body.length :=
      Nat.not_lt.mp fun short => notRefused (.inl short)
    by_cases ends : HoldsHeaderEnd body
    · obtain ⟨header, _, _, responded⟩ := peerMetadataResponseInit_found
        frame fourLength announced long ends around
      exact ⟨_, responded⟩
    · apply peerMetadataResponseInit_nullInside frame fourLength announced
        long ends around
      by_contra outside
      exact notRefused (.inr (.inr ⟨ends, outside⟩))

end Response

section Receive

variable {socket : Socket} {fd depth : Nat} {around : Surroundings}
  {body : List UInt8} {stream behind : ByteStream}

/-- A message that arrives is accepted exactly when it is not refused. -/
theorem peerMetadataPacketReceive_accepts_iff
    (isOpen : socket.sockDesc = some fd)
    (rounds : frameRounds depth socket.stream =
      some (.complete body, behind)) :
    (∃ received final, (peerMetadataPacketReceive around depth).from socket =
      (.ok (some received), final)) ↔ ¬ Refused around body := by
  have length := framePrefix_length socket.stream
  rcases frameRounds_complete rounds with ⟨announced, room⟩
  constructor
  · intro accepts
    rcases accepts with ⟨received, final, ran⟩
    rcases receiveFrame_answers isOpen ran with
      ⟨finish, other, log, alike, ends, _⟩
    cases rounds.symm.trans alike
    cases ends with
    | receives nonempty frame responded =>
        exact (peerMetadataResponseInit_responds_iff frame length
          announced.symm nonempty room around).mp ⟨_, responded⟩
  · intro notRefused
    have nonempty : body ≠ [] := by
      intro empty
      rw [empty] at notRefused
      exact notRefused (.inl Nat.two_pos)
    obtain ⟨out, log, frame, ran⟩ := receiveFrame_complete
      (peerMetadataResponseInit around) nonempty isOpen rounds
    rcases (peerMetadataResponseInit_responds_iff frame length
      announced.symm nonempty room around).mpr notRefused with
      ⟨response, responded⟩
    rw [responded] at ran
    exact ⟨_, _, ran⟩

theorem Reaches.unique {finish other : BodyEnd} {rest : ByteStream}
    (reaches : Reaches stream finish behind)
    (alike : Reaches stream other rest) : finish = other := by
  rcases reaches with ⟨depth, reached⟩
  rcases alike with ⟨deeper, further⟩
  have first := frameRounds_deeper (Nat.le_max_left depth deeper) reached
  have second := frameRounds_deeper (Nat.le_max_right depth deeper) further
  cases first.symm.trans second
  rfl

/-- No refused frame makes a receive succeed. -/
theorem NextFrame.not_accepted {received : Buffer × PeerMetadataResponse}
    {final : Socket} (next : NextFrame socket.stream body)
    (refused : Refused around body) (isOpen : socket.sockDesc = some fd)
    (ran : (peerMetadataPacketReceive around depth).from socket =
      (.ok (some received), final)) : False := by
  rcases receiveFrame_answers isOpen ran with
    ⟨finish, behind, log, rounds, ends, _⟩
  cases ends with
  | receives =>
      rcases frameRounds_complete rounds with ⟨announced, room⟩
      have fits : body.length ≤ bodyRoom := by
        rw [← next.announced, ← announced]
        exact room
      rcases next.arrives fits with ⟨rest, reaches⟩
      cases reaches.unique ⟨depth, rounds⟩
      exact (peerMetadataPacketReceive_accepts_iff isOpen rounds).mp
        ⟨_, final, ran⟩ refused

theorem nextFrame_framed (small : body.length < 2 ^ 32)
    (rest : List UInt8) {cuts : Stream' Nat} (whole : 4 ≤ cuts.head + 1) :
    NextFrame (.cutAt (bigEndian32 body.length ++ (body ++ rest)) cuts)
      body where
  announced := by
    rw [announcedLength, framePrefix_cutAt rfl, Nat.min_eq_left whole,
      Nat.sub_self, List.replicate_zero, List.append_nil]
    exact bigEndian_bigEndian32 small
  arrives := by
    intro room
    rcases frameRounds_framed room rest whole with
      ⟨_, depth, laterCuts, complete⟩
    exact ⟨_, depth, complete⟩

end Receive

/-- A loop whose next reply is not accepted ends with what it has. -/
theorem collectPieces_unaccepted {around : MetadataSurroundings}
    {depth fd remaining piece : Nat} {utMetadata : Int} {assembly : Assembly}
    {socket : Socket} {sends : Stream' Bool} {stream : ByteStream}
    {answer : ExitCode × Assembly}
    (start : Awaits fd sends stream socket) (sent : sends.head = true)
    (never : ∀ next received final, Awaits fd sends.tail stream next →
      (peerMetadataPacketReceive (around.reply piece) depth).from next ≠
        (.ok (some received), final))
    (answered : ((collectPieces around depth utMetadata (remaining + 1) piece
      assembly).from socket).1 = .ok answer) :
    answer.2 = assembly := by
  rcases collectPieces_sent start sent with ⟨next, awaits, step⟩
  rw [step, bind_from] at answered
  cases ran : (peerMetadataPacketReceive (around.reply piece) depth).from
      next with
  | mk outcome final =>
      rw [ran] at answered
      cases outcome with
      | error stop => cases answered
      | ok reply =>
          cases reply with
          | none =>
              cases answered
              rfl
          | some received => exact absurd ran (never next _ _ awaits)

/-- The replies that a request is safe from are the refused ones and the
data that it asked for. -/
theorem acceptsOnly_iff (around : MetadataSurroundings) {stream : ByteStream}
    (pieceNum : Nat) {body : List UInt8} (next : NextFrame stream body) :
    AcceptsOnly around stream pieceNum body ↔
      Refused (around.reply pieceNum) body ∨ DataFor pieceNum body := by
  constructor
  · intro only
    by_cases refused : Refused (around.reply pieceNum) body
    · exact .inl refused
    · have fits : body.length ≤ bodyRoom :=
        Nat.not_lt.mp fun large => refused (.inr (.inl large))
      rcases next.arrives fits with ⟨behind, depth, rounds⟩
      obtain ⟨received, final, ran⟩ :=
        (@peerMetadataPacketReceive_accepts_iff (openSocket stream) 3 depth
          _ _ _ rfl rounds).mpr refused
      exact .inr (only.accepted depth 3 _ received final rfl rfl ran)
  · intro safe
    constructor
    · intro depth fd socket received final isOpen same ran
      rcases safe with refused | data
      · rw [← same] at next
        exact absurd ran fun ran => next.not_accepted refused isOpen ran
      · exact data
    · intro notData depth fd sends utMetadata remaining assembly socket
        answer start sent answered
      rcases safe with refused | data
      · apply collectPieces_unaccepted start sent _ answered
        intro asked received final awaits ran
        rw [← awaits.stream] at next
        exact next.not_accepted refused awaits.isOpen ran
      · exact absurd data notData

/-- The header of the only piece of some metadata. -/
def onlyPieceEntries : List (List UInt8 × List UInt8) :=
  [(text "msg_type", encodeInteger 1), (text "piece", encodeInteger 0)]

theorem onlyPieceEntries_values :
    ∀ entry ∈ onlyPieceEntries, WellFormed entry.2 := by
  intro entry member
  rcases List.mem_cons.mp member with first | later
  · rw [first]
    exact .integer 1
  · rw [List.mem_singleton.mp later]
    exact .integer 0

theorem onlyPieceEntries_sorted :
    onlyPieceEntries.Pairwise (fun first second => first.1 < second.1) := by
  decide

def onlyPiece : DataMessage 0 where
  extension := 3
  header := ⟨onlyPieceEntries, onlyPieceEntries_sorted,
    onlyPieceEntries_values⟩
  payload := text "de"
  isData := List.mem_cons_self
  isPiece := List.mem_cons_of_mem _ List.mem_cons_self

theorem onlyPiece_acceptsOnly :
    AcceptsOnly nearNull (.cutAt (bigEndian32 onlyPiece.body.length ++
      (onlyPiece.body ++ [])) (.const 3)) 0 onlyPiece.body :=
  (acceptsOnly_iff nearNull 0
    (nextFrame_framed (by decide) [] (by decide))).mpr
      (.inr ⟨onlyPiece, rfl⟩)

/-- The text of an entry stands in a message that has it. -/
theorem DataMessage.entry_inside {pieceNum : Nat}
    (message : DataMessage pieceNum) {key value : List UInt8}
    (member : (key, value) ∈ message.header.entries) :
    key ++ value <:+: message.body := by
  rcases message.header.bytes_drop member with ⟨rest, split⟩
  have inside : key ++ value <:+: message.header.bytes := by
    have starts : key ++ value <+: message.header.bytes.drop
        (1 + keyOffset key message.header.entries) :=
      ⟨rest, by rw [split, List.append_assoc]⟩
    exact starts.isInfix.trans (List.drop_suffix _ _).isInfix
  exact inside.trans ⟨[20, message.extension], message.payload, rfl⟩

/-- A peer that does not hand out the piece. -/
def rejectMessage : List UInt8 :=
  20 :: 3 :: text "d8:msg_typei2e5:piecei0ee"

theorem rejectMessage_length : rejectMessage.length = 27 := by
  decide

theorem rejectMessage_ends : HoldsHeaderEnd rejectMessage := by
  unfold HoldsHeaderEnd
  decide +kernel

theorem rejectMessage_notRefused (around : Surroundings) :
    ¬ Refused around rejectMessage := by
  have length := rejectMessage_length
  have room : bodyRoom = 34812 := rfl
  intro refused
  rcases refused with short | large | missing
  · omega
  · omega
  · exact missing.1 rejectMessage_ends

/-- A message with another type is no data. -/
theorem rejectMessage_notData (pieceNum : Nat) :
    ¬ DataFor pieceNum rejectMessage := by
  intro data
  rcases data with ⟨message, same⟩
  have typed := message.entry_inside message.isData
  rw [same] at typed
  exact absurd typed (by decide +kernel)

/-- The reject is taken for a piece. -/
theorem rejectMessage_accepted :
    NextFrame (.cutAt (bigEndian32 rejectMessage.length ++
      (rejectMessage ++ [])) (.const 3)) rejectMessage ∧
    ¬ AcceptsOnly nearNull (.cutAt (bigEndian32 rejectMessage.length ++
      (rejectMessage ++ [])) (.const 3)) 0 rejectMessage := by
  have length := rejectMessage_length
  have room : bodyRoom = 34812 := rfl
  have next := @nextFrame_framed rejectMessage (by omega) [] (.const 3)
    (by decide)
  refine ⟨next, fun only => ?_⟩
  rcases next.arrives (by omega) with ⟨behind, depth, rounds⟩
  obtain ⟨received, final, ran⟩ :=
    (@peerMetadataPacketReceive_accepts_iff (openSocket _) 3 depth
      (nearNull.reply 0) _ _ rfl rounds).mpr (rejectMessage_notRefused _)
  exact rejectMessage_notData 0
    (only.accepted depth 3 _ received final rfl rfl ran)

end UvgTorrent
