import UvgTorrent.Peer.Segmentation

/-!
# Receives on a broken connection

The counter of the loop is the sum of the results of its `recv` calls, and
an error is a result of -1.  The receive fails when the sum comes down to
-1, or when the announced length is zero; a connection that is closed adds
zero for ever and the receive never returns.
-/

namespace UvgTorrent

open CProgram CArray MachineInt NetStream

/-- The sum of the next `rounds` results, from a sum of `total`. -/
def bodyTotal (announced : Nat) (total : Int) (stream : ByteStream) :
    Nat → Int
  | 0 => total
  | rounds + 1 =>
      let asked := askedFor announced total.toNat
      bodyTotal announced (total + recvCount (stream.arrival asked))
        (stream.after asked) rounds

/-- The results sum up to -1 after some rounds, and every sum before is
short of the announced length and of the end of `out`. -/
def Drains (announced : Nat) (total : Int) (stream : ByteStream) : Prop :=
  ∃ rounds, bodyTotal announced total stream rounds = -1 ∧
    ∀ earlier < rounds,
      0 ≤ bodyTotal announced total stream earlier ∧
      bodyTotal announced total stream earlier < announced ∧
      bodyTotal announced total stream earlier ≤ bodyRoom

/-- The receive returns `EXIT_FAILURE`. -/
def FailsReceive {Response : Type}
    (receive : Nat → Prog Socket (Option (Buffer × Response)))
    (socket : Socket) : Prop :=
  ∃ depth final, (receive depth).from socket = (.ok none, final)

section Totals

variable {announced : Nat} {body : List UInt8} {stream : ByteStream}

theorem bodyTotal_succ (announced : Nat) (total : Int)
    (stream : ByteStream) (rounds : Nat) :
    bodyTotal announced total stream (rounds + 1) =
      bodyTotal announced
        (total + recvCount (stream.arrival (askedFor announced total.toNat)))
        (stream.after (askedFor announced total.toNat)) rounds :=
  rfl

/-- A round that neither ends the loop nor overruns the array passes the
question on. -/
theorem drains_step {total : Int} (lower : 0 ≤ total)
    (short : total < announced) (room : total ≤ bodyRoom) :
    Drains announced total stream ↔
      Drains announced
        (total + recvCount (stream.arrival (askedFor announced total.toNat)))
        (stream.after (askedFor announced total.toNat)) := by
  constructor
  · rintro ⟨rounds, reached, before⟩
    cases rounds with
    | zero =>
        have start : total = -1 := reached
        omega
    | succ rounds =>
        refine ⟨rounds, reached, fun earlier less => ?_⟩
        exact before (earlier + 1) (Nat.succ_lt_succ less)
  · rintro ⟨rounds, reached, before⟩
    refine ⟨rounds + 1, reached, fun earlier less => ?_⟩
    cases earlier with
    | zero =>
        exact ⟨lower, short, room⟩
    | succ earlier =>
        exact before earlier (Nat.lt_of_succ_lt_succ less)

theorem drains_below : Drains announced (-1) stream := by
  refine ⟨0, rfl, fun earlier less => ?_⟩
  cases less

theorem not_drains {total : Int} (positive : 0 ≤ total)
    (past : ¬ (total < announced ∧ total ≤ bodyRoom)) :
    ¬ Drains announced total stream := by
  rintro ⟨rounds, reached, before⟩
  cases rounds with
  | zero =>
      have start : total = -1 := reached
      omega
  | succ rounds =>
      rcases before 0 (Nat.succ_pos rounds) with ⟨_, short, room⟩
      exact past ⟨short, room⟩

/-- The sum that stands for what counts as received. -/
def receivedTotal : Option (List UInt8) → Int
  | some body => body.length
  | none => -1

theorem receivedTotal_takeBack (body : List UInt8) :
    receivedTotal (takeBack body) = body.length - 1 := by
  unfold takeBack
  split
  · rename_i empty
    rw [empty]
    rfl
  · rename_i nonempty
    have positive := List.length_pos_iff.mpr nonempty
    have shorter : body.dropLast.length = body.length - 1 :=
      List.length_dropLast
    show (body.dropLast.length : Int) = body.length - 1
    omega

/-- The rounds end with a broken connection only when the sums drain. -/
theorem drains_of_broken (depth : Nat) {received : Option (List UInt8)}
    {behind : ByteStream}
    (room : receivedTotal received ≤ bodyRoom)
    (broken : bodyRounds announced depth received stream =
      some (.broken, behind)) :
    Drains announced (receivedTotal received) stream := by
  induction depth generalizing received stream with
  | zero =>
      cases broken
  | succ depth inductionHypothesis =>
      cases received with
      | none =>
          exact drains_below
      | some body =>
          by_cases short : body.length < announced
          · have lower : (0 : Int) ≤ receivedTotal (some body) :=
              Int.natCast_nonneg _
            have below : receivedTotal (some body) < announced :=
              Int.ofNat_lt.mpr short
            rw [drains_step lower below room]
            show Drains announced (body.length + recvCount (stream.arrival
              (askedFor announced body.length)))
              (stream.after (askedFor announced body.length))
            cases arrived : stream.arrival
                (askedFor announced body.length) with
            | none =>
                rw [bodyRounds_error depth short arrived] at broken
                have total := receivedTotal_takeBack body
                have drains := inductionHypothesis (by
                  have small : (body.length : Int) ≤ bodyRoom := room
                  omega) broken
                rw [total] at drains
                exact drains
            | some bytes =>
                by_cases fits : body.length + bytes.length ≤ bodyRoom
                · rw [bodyRounds_bytes depth short arrived fits] at broken
                  have drains := inductionHypothesis (by
                    show ((body ++ bytes).length : Int) ≤ bodyRoom
                    rw [List.length_append]
                    omega) broken
                  show Drains announced (body.length + bytes.length) _
                  rwa [receivedTotal, List.length_append,
                    Int.natCast_add] at drains
                · rw [bodyRounds_overrun depth short arrived
                    (Nat.not_le.mp fits)] at broken
                  cases broken
          · rw [bodyRounds_done depth (Nat.not_lt.mp short)] at broken
            cases broken

theorem broken_of_drains {received : Option (List UInt8)}
    (drains : Drains announced (receivedTotal received) stream) :
    ∃ depth behind, bodyRounds announced depth received stream =
      some (.broken, behind) := by
  rcases drains with ⟨rounds, reached, before⟩
  induction rounds generalizing received stream with
  | zero =>
      cases received with
      | none =>
          exact ⟨1, stream, rfl⟩
      | some body =>
          have start : (body.length : Int) = -1 := reached
          omega
  | succ rounds inductionHypothesis =>
      cases received with
      | none =>
          exact ⟨1, stream, rfl⟩
      | some body =>
          rcases before 0 (Nat.succ_pos rounds) with ⟨_, below, _⟩
          have short : body.length < announced := Int.ofNat_lt.mp below
          have shifted : bodyTotal announced
              (body.length + recvCount (stream.arrival
                (askedFor announced body.length)))
              (stream.after (askedFor announced body.length)) rounds = -1 :=
            reached
          have later := fun earlier less =>
            before (earlier + 1) (Nat.succ_lt_succ less)
          simp only [bodyTotal_succ, receivedTotal, Int.toNat_natCast]
            at later
          cases arrived : stream.arrival
              (askedFor announced body.length) with
          | none =>
              rw [arrived] at shifted later
              have total := receivedTotal_takeBack body
              obtain ⟨depth, behind, broken⟩ :=
                inductionHypothesis (by rw [total]; exact shifted)
                  (by rw [total]; exact later)
              refine ⟨depth + 1, behind, ?_⟩
              rw [bodyRounds_error depth short arrived]
              exact broken
          | some bytes =>
              rw [arrived] at shifted later
              have total : receivedTotal (some (body ++ bytes)) =
                  body.length + recvCount (some bytes) := by
                simp only [receivedTotal, recvCount, List.length_append,
                  Int.natCast_add]
              have counted : (body.length : Int) + recvCount (some bytes) =
                  (body.length + bytes.length : Nat) :=
                rfl
              have fits : body.length + bytes.length ≤ bodyRoom := by
                by_contra overruns
                refine not_drains (by omega) (fun inside => ?_)
                  ⟨rounds, shifted, later⟩
                omega
              obtain ⟨depth, behind, broken⟩ :=
                inductionHypothesis (by rw [total]; exact shifted)
                  (by rw [total]; exact later)
              refine ⟨depth + 1, behind, ?_⟩
              rw [bodyRounds_bytes depth short arrived fits]
              exact broken

theorem bodyTotal_cutAt_nonneg (announced rounds : Nat) {total : Int}
    (positive : 0 ≤ total) (incoming : List UInt8) (cuts : Stream' Nat) :
    0 ≤ bodyTotal announced total (.cutAt incoming cuts) rounds := by
  induction rounds generalizing total incoming cuts with
  | zero =>
      exact positive
  | succ rounds inductionHypothesis =>
      rw [bodyTotal_succ, ByteStream.cutAt_arrival, ByteStream.cutAt_after]
      exact inductionHypothesis
        (Int.add_nonneg positive (Int.natCast_nonneg _)) _ _

theorem bodyTotal_closed (announced : Nat) (total : Int)
    (cuts : Stream' Nat) (rounds : Nat) :
    bodyTotal announced total (.cutAt [] cuts) rounds = total := by
  induction rounds generalizing cuts with
  | zero =>
      rfl
  | succ rounds inductionHypothesis =>
      have nothing : total + recvCount (some
          (([] : List UInt8).take (min (askedFor announced total.toNat)
            (cuts.head + 1)))) = total := by
        simp [recvCount]
      rw [bodyTotal_succ, ByteStream.cutAt_arrival, ByteStream.cutAt_after,
        nothing, List.drop_nil, inductionHypothesis]

theorem not_drains_cutAt (incoming : List UInt8) (cuts : Stream' Nat) :
    ¬ Drains announced 0 (.cutAt incoming cuts) := by
  rintro ⟨rounds, reached, _⟩
  have nonneg := bodyTotal_cutAt_nonneg announced rounds
    (Int.le_refl 0) incoming cuts
  omega

end Totals

section Receive

variable {socket : Socket} {fd : Nat} {Response : Type}

theorem rounds_of_fails {responseNew : List UInt8 → Exec Response}
    (isOpen : socket.sockDesc = some fd)
    (fails : FailsReceive (receiveFrame responseNew) socket) :
    ∃ depth finish behind,
      frameRounds depth socket.stream = some (finish, behind) ∧
      finish.Fails := by
  rcases fails with ⟨depth, final, ran⟩
  rcases receiveFrame_answers isOpen ran with
    ⟨finish, behind, log, rounds, ends, _⟩
  cases ends with
  | fails failing => exact ⟨depth, finish, behind, rounds, failing⟩

theorem receiveFrame_fails_iff (responseNew : List UInt8 → Exec Response)
    (isOpen : socket.sockDesc = some fd) :
    FailsReceive (receiveFrame responseNew) socket ↔
      announcedLength socket.stream = 0 ∨
        Drains (announcedLength socket.stream) 0
          (socket.stream.after 4) := by
  constructor
  · intro fails
    obtain ⟨depth, finish, behind, rounds, failing⟩ :=
      rounds_of_fails isOpen fails
    rcases failing with rfl | rfl
    · have start : receivedTotal (some []) ≤ bodyRoom :=
        Int.natCast_nonneg bodyRoom
      exact .inr (drains_of_broken depth start rounds)
    · exact .inl (frameRounds_complete rounds).1.symm
  · rintro (zero | drains)
    · have rounds : frameRounds 1 socket.stream =
          some (.complete [], socket.stream.after 4) := by
        rw [frameRounds, zero]
        exact bodyRounds_done 0 (Nat.zero_le _)
      rcases receiveFrame_fails (.inr rfl) isOpen rounds with ⟨log, ran⟩
      exact ⟨1, _, ran⟩
    · obtain ⟨depth, behind, broken⟩ := broken_of_drains
        (show Drains _ (receivedTotal (some [])) _ from drains)
      rcases receiveFrame_fails (.inl rfl) isOpen broken with ⟨log, ran⟩
      exact ⟨depth, _, ran⟩

/-- Both receives fail exactly when the announced length is zero or the
results of `recv` drain. -/
theorem packetReceive_fails_iff (isOpen : socket.sockDesc = some fd) :
    (FailsReceive peerRequestPiecePacketReceive socket ↔
      announcedLength socket.stream = 0 ∨
        Drains (announcedLength socket.stream) 0
          (socket.stream.after 4)) ∧
    (∀ around, FailsReceive (peerMetadataPacketReceive around) socket ↔
      announcedLength socket.stream = 0 ∨
        Drains (announcedLength socket.stream) 0
          (socket.stream.after 4)) :=
  ⟨receiveFrame_fails_iff _ isOpen,
    fun _ => receiveFrame_fails_iff _ isOpen⟩

end Receive

/-- A frame of five bytes of which two are sent. -/
def truncatedStream : ByteStream :=
  .cutAt (bigEndian32 5 ++ [20, 1]) (.const 3)

theorem packetReceive_fails_iff_truncated :
    (FailsReceive peerRequestPiecePacketReceive
        (openSocket truncatedStream) ↔
      announcedLength truncatedStream = 0 ∨
        Drains (announcedLength truncatedStream) 0
          (truncatedStream.after 4)) ∧
    (∀ around,
      FailsReceive (peerMetadataPacketReceive around)
          (openSocket truncatedStream) ↔
        announcedLength truncatedStream = 0 ∨
          Drains (announcedLength truncatedStream) 0
            (truncatedStream.after 4)) :=
  packetReceive_fails_iff rfl

/-- Two of the five bytes arrive, every later result is zero, and neither
receive ever fails. -/
theorem packetReceive_hangs_on_truncated :
    announcedLength truncatedStream = 5 ∧
    (∀ rounds, bodyTotal 5 0 (truncatedStream.after 4) (rounds + 1) = 2) ∧
    ¬ FailsReceive peerRequestPiecePacketReceive
      (openSocket truncatedStream) ∧
    ∀ around, ¬ FailsReceive (peerMetadataPacketReceive around)
      (openSocket truncatedStream) := by
  have announced : announcedLength truncatedStream = 5 := by decide
  have behind : truncatedStream.after 4 =
      .cutAt [20, 1] (Stream'.const 3).tail :=
    ByteStream.cutAt_after _ _ 4
  have noFailure : ¬ (announcedLength truncatedStream = 0 ∨
      Drains (announcedLength truncatedStream) 0
        (truncatedStream.after 4)) := by
    rintro (zero | drains)
    · omega
    · rw [behind] at drains
      exact not_drains_cutAt _ _ drains
  refine ⟨announced, fun rounds => ?_, fun fails => ?_, fun around fails => ?_⟩
  · rw [bodyTotal_succ, behind, ByteStream.cutAt_arrival,
      ByteStream.cutAt_after]
    exact bodyTotal_closed 5 2 _ rounds
  · exact noFailure ((receiveFrame_fails_iff _ rfl).mp fails)
  · exact noFailure ((receiveFrame_fails_iff _ rfl).mp fails)

end UvgTorrent
