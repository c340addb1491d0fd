import UvgTorrent.Peer.MetadataRounds
import UvgTorrent.Peer.Segmentation

/-!
# Lengths that a peer chooses

The index arithmetic of the metadata exchange stays in range exactly when
every reply up to the end of the exchange fits: its body stays within
`out`, it has a header that ends, and there is room for it in `meta_data`,
with one cell to spare behind the last one.
-/

namespace UvgTorrent

open CProgram CText CArray MachineInt NetStream

/-- The replies to the next requests fit behind `pos` filled cells. -/
def RepliesFit (capacity : Nat) :
    Nat → Nat → Stream' Bool → ByteStream → Prop
  | 0, pos, _, _ => pos + 1 < capacity
  | remaining + 1, pos, sends, stream =>
      if sends.head then
        (∀ behind, ¬ Reaches stream .overrun behind) ∧
        ∀ body behind, Reaches stream (.complete body) behind →
          body ≠ [] →
          GoodReply body ∧ pos + (body.drop 2).length ≤ capacity ∧
            RepliesFit capacity remaining (pos + (body.drop 2).length)
              sends.tail behind
      else
        RepliesFit capacity remaining pos sends.tail stream

/-- A stop that is a read, a write or an array size out of range. -/
def OutOfRange (stop : Stop) : Prop :=
  stop = .readPast ∨ stop = .writePast ∨ stop = .badSize

/-- The array `meta_data` was not missed by any store, and nothing was read
or copied out of range. -/
def StaysInRange : Exec (ExitCode × Assembly) → Prop
  | .ok (_, assembly) => assembly.metaData.stray = []
  | .error stop => ¬ OutOfRange stop

/-- No reply of the peer makes the exchange leave an array, and the size of
`meta_data` does not overflow. -/
def NoEscape (metadataSize : Int) (peer : Peer) : Prop :=
  (-2 ^ 31 ≤ metadataSize * peer.numPieces ∧
    metadataSize * peer.numPieces < 2 ^ 31) ∧
  ∀ around depth, StaysInRange
    ((assembleMetadata around depth metadataSize).from peer).1

section Collect

variable {capacity pos fd : Nat} {sends : Stream' Bool}
  {stream : ByteStream} {assembly : Assembly} {socket : Socket}

theorem terminate_stray (held : HoldsPieces capacity pos assembly) :
    (assembly.metaData.store (assembly.metadataPos + 1).toNat 0).stray = [] ↔
      pos + 1 < capacity := by
  have index : (assembly.metadataPos + 1).toNat = pos + 1 := by
    rw [held.position]
    omega
  rw [index]
  by_cases inside : pos + 1 < assembly.metaData.cells.length
  · rw [Buffer.store_of_lt inside, ← held.size]
    exact ⟨fun _ => inside, fun _ => held.noStray⟩
  · rw [Buffer.store_of_le (Nat.not_lt.mp inside), ← held.size]
    simp [inside]

theorem collectPieces_inRange (around : MetadataSurroundings)
    (depth : Nat) (utMetadata : Int) (remaining piece : Nat)
    (fits : RepliesFit capacity remaining pos sends stream)
    (held : HoldsPieces capacity pos assembly)
    (start : Awaits fd sends stream socket) :
    StaysInRange (((collectPieces around depth utMetadata remaining piece
      assembly).from socket).1.map terminate) := by
  induction remaining generalizing piece pos assembly sends stream socket with
  | zero =>
      exact (terminate_stray held).mpr fits
  | succ remaining inductionHypothesis =>
      rw [RepliesFit] at fits
      cases sent : sends.head with
      | false =>
          rw [sent] at fits
          rcases collectPieces_skipped start sent with ⟨next, after, step⟩
          rw [step]
          exact inductionHypothesis (piece + 1) fits held after
      | true =>
          rw [if_pos sent] at fits
          rcases fits with ⟨noOverrun, good⟩
          cases rounds : frameRounds depth stream with
          | none =>
              rw [collectPieces_unfinished start sent rounds]
              simp [StaysInRange, Except.map, OutOfRange]
          | some finished =>
              rcases finished with ⟨finish, behind⟩
              cases finish with
              | overrun =>
                  exact absurd ⟨depth, rounds⟩ (noOverrun behind)
              | broken =>
                  obtain ⟨final, ran⟩ :=
                    collectPieces_fails (.inl rfl) start sent rounds
                  rw [ran]
                  exact held.noStray
              | complete body =>
                  by_cases empty : body = []
                  · rw [empty] at rounds
                    obtain ⟨final, ran⟩ :=
                      collectPieces_fails (.inr rfl) start sent rounds
                    rw [ran]
                    exact held.noStray
                  · obtain ⟨goodReply, room, rest⟩ :=
                      good body behind ⟨depth, rounds⟩ empty
                    obtain ⟨_, _, after, next, _, heldAfter, _, follows,
                      step⟩ := collectPieces_good start sent goodReply
                        rounds held room
                    rw [step]
                    exact inductionHypothesis (piece + 1) rest heldAfter
                      follows

/-- The surroundings in which a reply without the end of a header is read
outside its array. -/
def nearNull : MetadataSurroundings where
  metaData := fun _ => 0
  reply := fun _ => ⟨3, fun _ => 0⟩
  order := .little

/-- Replies that do not fit take the loop out of range, at every depth that
suffices to read them. -/
theorem collectPieces_escapes (fd : Nat) (utMetadata : Int)
    (remaining : Nat)
    (unfit : ¬ RepliesFit capacity remaining pos sends stream) :
    ∃ enough, ∀ depth, enough ≤ depth → ∀ piece assembly socket,
      HoldsPieces capacity pos assembly → Awaits fd sends stream socket →
      ¬ StaysInRange (((collectPieces nearNull depth utMetadata remaining
        piece assembly).from socket).1.map terminate) := by
  induction remaining generalizing pos sends stream with
  | zero =>
      refine ⟨0, fun depth _ piece assembly socket held _ inRange => ?_⟩
      exact unfit ((terminate_stray held).mp inRange)
  | succ remaining inductionHypothesis =>
      rw [RepliesFit] at unfit
      cases sent : sends.head with
      | false =>
          rw [sent] at unfit
          rcases inductionHypothesis unfit with ⟨enough, escapes⟩
          refine ⟨enough, fun depth more piece assembly socket held start =>
            ?_⟩
          rcases collectPieces_skipped start sent with ⟨next, after, step⟩
          rw [step]
          exact escapes depth more (piece + 1) assembly next held after
      | true =>
          rw [if_pos sent] at unfit
          by_cases overruns : ∃ behind, Reaches stream .overrun behind
          · rcases overruns with ⟨behind, enough, rounds⟩
            refine ⟨enough, fun depth more piece assembly socket held start =>
              ?_⟩
            rw [collectPieces_overrun start sent
              (frameRounds_deeper more rounds)]
            simp [StaysInRange, Except.map, OutOfRange]
          · have noGood : ¬ ∀ body behind,
                Reaches stream (.complete body) behind → body ≠ [] →
                GoodReply body ∧ pos + (body.drop 2).length ≤ capacity ∧
                  RepliesFit capacity remaining
                    (pos + (body.drop 2).length) sends.tail behind :=
              fun good => unfit ⟨fun behind reaches =>
                overruns ⟨behind, reaches⟩, good⟩
            simp only [not_forall] at noGood
            rcases noGood with ⟨body, behind, ⟨enough, rounds⟩, nonempty, bad⟩
            by_cases goodReply : GoodReply body
            · by_cases room : pos + (body.drop 2).length ≤ capacity
              · obtain ⟨later, escapes⟩ :=
                  inductionHypothesis
                    (fun rest => bad ⟨goodReply, room, rest⟩)
                refine ⟨max enough later,
                  fun depth more piece assembly socket held start => ?_⟩
                obtain ⟨_, _, after, next, _, heldAfter, _, follows, step⟩ :=
                  collectPieces_good start sent goodReply
                    (frameRounds_deeper
                      (Nat.le_trans (Nat.le_max_left enough later) more)
                      rounds) held room
                rw [step]
                exact escapes depth
                  (Nat.le_trans (Nat.le_max_right enough later) more)
                  (piece + 1) after next
                  heldAfter follows
              · refine ⟨enough,
                  fun depth more piece assembly socket held start => ?_⟩
                rw [collectPieces_outgrown start sent goodReply
                  (frameRounds_deeper more rounds) held
                  (Nat.not_le.mp room)]
                simp [StaysInRange, Except.map, OutOfRange]
            · refine ⟨enough,
                fun depth more piece assembly socket held start => ?_⟩
              rw [collectPieces_bad start sent goodReply nonempty rfl
                (frameRounds_deeper more rounds)]
              simp [StaysInRange, Except.map, OutOfRange]

end Collect

section Assemble

variable {peer : Peer} {metadataSize : Int} {fd : Nat}

theorem sized_of_range (lower : 0 ≤ metadataSize * peer.numPieces)
    (upper : metadataSize * peer.numPieces < 2 ^ 31) :
    toInt32 (metadataSize * peer.numPieces) =
      (metadataSize * peer.numPieces).toNat := by
  rw [toInt32_of_range (by omega) upper]
  omega

theorem repliesFit_of_noEscape (isOpen : peer.socket.sockDesc = some fd)
    (noEscape : NoEscape metadataSize peer) :
    0 ≤ metadataSize * peer.numPieces ∧
      RepliesFit (metadataSize * peer.numPieces).toNat
        peer.numPieces.toNat 0 peer.socket.sends peer.socket.stream := by
  rcases noEscape with ⟨⟨lower, upper⟩, inRange⟩
  have positive : 0 ≤ metadataSize * peer.numPieces := by
    by_contra negative
    have size := toInt32_of_range lower upper
    have stays := inRange nearNull 0
    rw [assembleMetadata_badSize nearNull 0 (by omega)] at stays
    exact stays (.inr (.inr rfl))
  refine ⟨positive, ?_⟩
  by_contra unfit
  obtain ⟨enough, escapes⟩ := collectPieces_escapes fd
    peer.utMetadata peer.numPieces.toNat unfit
  have stays := inRange nearNull enough
  rw [assembleMetadata_eq nearNull enough (sized_of_range positive upper)]
    at stays
  exact escapes enough (Nat.le_refl _) 0 _ peer.socket
    (newAssembly_holds nearNull (by omega)) (awaits_open isOpen) stays

/-- No reply escapes exactly when the array has a size and every reply
fits. -/
theorem getMetadata_noEscape_iff (isOpen : peer.socket.sockDesc = some fd) :
    NoEscape metadataSize peer ↔
      0 ≤ metadataSize * peer.numPieces ∧
      metadataSize * peer.numPieces < 2 ^ 31 ∧
      RepliesFit (metadataSize * peer.numPieces).toNat
        peer.numPieces.toNat 0 peer.socket.sends peer.socket.stream := by
  constructor
  · intro noEscape
    rcases repliesFit_of_noEscape isOpen noEscape with ⟨positive, fits⟩
    exact ⟨positive, noEscape.1.2, fits⟩
  · rintro ⟨positive, upper, fits⟩
    refine ⟨⟨by omega, upper⟩, fun around depth => ?_⟩
    rw [assembleMetadata_eq around depth (sized_of_range positive upper)]
    exact collectPieces_inRange around depth peer.utMetadata
      peer.numPieces.toNat 0 fits (newAssembly_holds around (by omega))
      (awaits_open isOpen)

end Assemble

/-- A peer that announced one piece and answers with a message of one
byte. -/
def tinyReplyPeer : Peer where
  socket := openSocket (.cutAt (bigEndian32 1 ++ ([20] ++ [])) (.const 3))
  utMetadata := 1
  metadataSize := 16384
  numPieces := 1
  pieceSize := 16384

theorem getMetadata_noEscape_iff_tinyReply :
    NoEscape 16384 tinyReplyPeer ↔
      0 ≤ (16384 : Int) * tinyReplyPeer.numPieces ∧
      (16384 : Int) * tinyReplyPeer.numPieces < 2 ^ 31 ∧
      RepliesFit ((16384 : Int) * tinyReplyPeer.numPieces).toNat
        tinyReplyPeer.numPieces.toNat 0 tinyReplyPeer.socket.sends
        tinyReplyPeer.socket.stream :=
  getMetadata_noEscape_iff rfl

/-- The length of a one-byte message wraps, and its copy leaves the
array. -/
theorem getMetadata_escapes_on_tinyReply :
    ¬ NoEscape 16384 tinyReplyPeer := by
  intro noEscape
  rcases repliesFit_of_noEscape rfl noEscape with ⟨_, fits⟩
  obtain ⟨_, depth, laterCuts, rounds⟩ := frameRounds_framed
    (show ([20] : List UInt8).length ≤ bodyRoom by decide) []
    (show 4 ≤ (Stream'.const 3).head + 1 by decide)
  rcases fits.2 [20] _ ⟨depth, rounds⟩ (by decide) with ⟨good, _, _⟩
  exact absurd good.long (by decide)

end UvgTorrent
