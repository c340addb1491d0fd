import UvgTorrent.Peer.FrameRounds
import UvgTorrent.Peer.Packets

/-!
# Frames on a stream that is cut anywhere

A frame is delivered when the receive succeeds with the frame at the start
of `out` and takes exactly the frame from the stream.  The body may be cut
anywhere; the four bytes of the length must arrive in one piece.
-/

namespace UvgTorrent

open CProgram CText CArray MachineInt NetStream

/-- The body of a frame whose length prefix lies in the range that `out`
has room for. -/
structure Frame where
  body : List UInt8
  lower : 2 ≤ body.length
  upper : body.length ≤ 34812

def Frame.bytes (frame : Frame) : List UInt8 :=
  bigEndian32 frame.body.length ++ frame.body

def DeliversFrame {Response : Type}
    (receive : Nat → Prog Socket (Option (Buffer × Response)))
    (frame : Frame) (rest : List UInt8) (socket : Socket) : Prop :=
  ∃ depth out response final,
    (receive depth).from socket = (.ok (some (out, response)), final) ∧
    HoldsFrame frame.bytes out ∧ final.stream.incoming = rest

section Segments

variable {frame : Frame} {rest : List UInt8} {cuts : Stream' Nat}

theorem prefix_length (frame : Frame) :
    (bigEndian32 frame.body.length).length = 4 :=
  rfl

theorem bigEndian_front (frame : Frame) :
    bigEndian (bigEndian32 frame.body.length) = frame.body.length := by
  have upper := frame.upper
  exact bigEndian_bigEndian32 (by omega)

/-- When the prefix is cut, fewer bytes than the frame are taken. -/
theorem frameRounds_cut (cut : ¬ 4 ≤ cuts.head + 1) {depth : Nat}
    {body : List UInt8} {behind : ByteStream}
    (complete : frameRounds depth (.cutAt (frame.bytes ++ rest) cuts) =
      some (.complete body, behind)) :
    rest.length < behind.incoming.length := by
  have announced : announcedLength (.cutAt (frame.bytes ++ rest) cuts) ≤
      frame.body.length := by
    have padded := bigEndian_padded_le
      (bigEndian32 frame.body.length) (min 4 (cuts.head + 1))
    rw [prefix_length, bigEndian_front] at padded
    rwa [announcedLength, Frame.bytes, List.append_assoc,
      framePrefix_cutAt (prefix_length frame)]
  have size := (frameRounds_complete complete).1
  rw [frameRounds, ByteStream.cutAt_after] at complete
  have conserved := congrArg List.length
    (bodyRounds_conserve depth complete)
  simp only [List.length_append, List.length_nil, List.length_drop,
    Frame.bytes, bigEndian32_length] at conserved
  omega

variable {socket : Socket} {fd : Nat} {Response : Type}
  {responseNew : List UInt8 → Exec Response}

theorem delivers_of_whole (isOpen : socket.sockDesc = some fd)
    (sent : socket.stream = .cutAt (frame.bytes ++ rest) cuts)
    (whole : 4 ≤ cuts.head + 1)
    (answers : ∀ out, HoldsFrame frame.bytes out →
      ∃ response, responseNew out.cells = .ok response) :
    DeliversFrame (receiveFrame responseNew) frame rest socket := by
  obtain ⟨isPrefix, depth, laterCuts, complete⟩ :=
    frameRounds_framed (show frame.body.length ≤ bodyRoom from frame.upper)
      rest whole
  rw [← List.append_assoc] at isPrefix complete
  have nonempty : frame.body ≠ [] := by
    have lower := frame.lower
    intro empty
    rw [empty] at lower
    cases lower
  rw [← Frame.bytes, ← sent] at complete
  obtain ⟨out, log, held, ran⟩ :=
    receiveFrame_complete responseNew nonempty isOpen complete
  rw [sent, Frame.bytes, isPrefix] at held
  rcases answers out held with ⟨response, responded⟩
  rw [responded] at ran
  exact ⟨depth, out, response, _, ran, held, rfl⟩

theorem whole_of_delivers (isOpen : socket.sockDesc = some fd)
    (sent : socket.stream = .cutAt (frame.bytes ++ rest) cuts)
    (delivers : DeliversFrame (receiveFrame responseNew) frame rest socket) :
    4 ≤ cuts.head + 1 ∧ ∃ out response, HoldsFrame frame.bytes out ∧
      responseNew out.cells = .ok response := by
  rcases delivers with ⟨depth, out, response, final, ran, held, taken⟩
  rcases receiveFrame_answers isOpen ran with
    ⟨finish, behind, log, rounds, ends, rfl⟩
  cases ends with
  | receives nonempty frame responded =>
      by_cases whole : 4 ≤ cuts.head + 1
      · exact ⟨whole, out, response, held, responded⟩
      · rw [sent] at rounds
        have later := frameRounds_cut whole rounds
        rw [← taken] at later
        exact absurd later (Nat.lt_irrefl _)

/-- The piece packet delivers a frame exactly when its prefix arrives in one
piece; the metadata packet does so in all surroundings exactly when the
header of the message ends as well. -/
theorem packetReceive_delivers_iff (isOpen : socket.sockDesc = some fd)
    (sent : socket.stream = .cutAt (frame.bytes ++ rest) cuts) :
    (DeliversFrame peerRequestPiecePacketReceive frame rest socket ↔
      4 ≤ cuts.head + 1) ∧
    ((∀ around,
      DeliversFrame (peerMetadataPacketReceive around) frame rest socket) ↔
      4 ≤ cuts.head + 1 ∧ HoldsHeaderEnd frame.body) := by
  have announced := bigEndian_front frame
  have length := prefix_length frame
  constructor
  · constructor
    · intro delivers
      exact (whole_of_delivers isOpen sent delivers).1
    · intro whole
      exact delivers_of_whole isOpen sent whole fun _ _ => ⟨(), rfl⟩
  · constructor
    · intro delivers
      obtain ⟨whole, out, response, held, responded⟩ :=
        whole_of_delivers isOpen sent (delivers ⟨3, fun _ => 0⟩)
      refine ⟨whole, ?_⟩
      by_contra missing
      have outside := not_nullInside_three (frame.body.drop 2).length
      rw [peerMetadataResponseInit_missing held length announced
        frame.lower missing ⟨3, fun _ => 0⟩ outside] at responded
      cases responded
    · rintro ⟨whole, ends⟩ around
      refine delivers_of_whole isOpen sent whole fun out held => ?_
      obtain ⟨header, _, _, responded⟩ := peerMetadataResponseInit_found
        held length announced frame.lower ends around
      exact ⟨_, responded⟩

end Segments

def openSocket (stream : ByteStream) : Socket where
  sockDesc := some 3
  connecting := .connected 3
  sends := .const true
  stream := stream
  log := []

/-- A message of two id bytes and nothing else. -/
def shortFrame : Frame :=
  ⟨[20, 1], by decide, by decide⟩

theorem packetReceive_delivers_iff_shortFrame :
    (DeliversFrame peerRequestPiecePacketReceive shortFrame []
      (openSocket (.cutAt (shortFrame.bytes ++ []) (.const 3))) ↔
      4 ≤ (Stream'.const 3).head + 1) ∧
    ((∀ around,
      DeliversFrame (peerMetadataPacketReceive around) shortFrame []
        (openSocket (.cutAt (shortFrame.bytes ++ []) (.const 3)))) ↔
      4 ≤ (Stream'.const 3).head + 1 ∧ HoldsHeaderEnd shortFrame.body) :=
  packetReceive_delivers_iff rfl rfl

theorem packetReceive_loses_cut_prefix :
    ¬ DeliversFrame peerRequestPiecePacketReceive shortFrame []
      (openSocket (.cutAt (shortFrame.bytes ++ []) (.const 0))) := by
  intro delivers
  have whole := (whole_of_delivers rfl rfl delivers).1
  exact absurd whole (by decide)

end UvgTorrent
