import UvgTorrent.Peer.FrameReceive

/-!
# The rounds of a receive

One equation for each way a round can go, and what a whole run of rounds
comes to: a complete body has the announced length, and on a stream without
errors it is what the stream begins with, however the stream is cut.
-/

namespace UvgTorrent

open CProgram CArray MachineInt NetStream

section Step

variable {announced : Nat} {body bytes : List UInt8} {stream : ByteStream}

theorem bodyRounds_error (depth : Nat) (short : body.length < announced)
    (failed : stream.arrival (askedFor announced body.length) = none) :
    bodyRounds announced (depth + 1) (some body) stream =
      bodyRounds announced depth (takeBack body)
        (stream.after (askedFor announced body.length)) := by
  rw [bodyRounds, if_pos short]
  simp only [failed]

theorem bodyRounds_bytes (depth : Nat) (short : body.length < announced)
    (arrived :
      stream.arrival (askedFor announced body.length) = some bytes)
    (fits : body.length + bytes.length ≤ bodyRoom) :
    bodyRounds announced (depth + 1) (some body) stream =
      bodyRounds announced depth (some (body ++ bytes))
        (stream.after (askedFor announced body.length)) := by
  rw [bodyRounds, if_pos short]
  simp only [arrived, if_pos fits]

theorem bodyRounds_overrun (depth : Nat) (short : body.length < announced)
    (arrived :
      stream.arrival (askedFor announced body.length) = some bytes)
    (overruns : bodyRoom < body.length + bytes.length) :
    bodyRounds announced (depth + 1) (some body) stream =
      some (.overrun,
        stream.after (askedFor announced body.length)) := by
  rw [bodyRounds, if_pos short]
  simp only [arrived, if_neg (Nat.not_le.mpr overruns)]

theorem bodyRounds_done (depth : Nat) (enough : announced ≤ body.length) :
    bodyRounds announced (depth + 1) (some body) stream =
      some (.complete body, stream) := by
  rw [bodyRounds, if_neg (Nat.not_lt.mpr enough)]

theorem askedFor_of_small {received : Nat} (short : received < announced)
    (small : announced < 2 ^ 31) :
    askedFor announced received = announced - received := by
  rw [askedFor, toInt32_of_range (by omega) (by omega)]
  exact toSize_natCast (by omega)

/-- A round never takes more than is missing, unless it overruns. -/
theorem arrival_within (short : body.length < announced)
    (arrived :
      stream.arrival (askedFor announced body.length) = some bytes)
    (fits : body.length + bytes.length ≤ bodyRoom) :
    body.length + bytes.length ≤ announced := by
  have roomSize : bodyRoom = 34812 := rfl
  by_cases small : announced < 2 ^ 31
  · have most := ByteStream.arrival_length_le arrived
    rw [askedFor_of_small short small] at most
    omega
  · omega

theorem takeBack_length {rest : List UInt8}
    (taken : takeBack body = some rest) : rest.length ≤ body.length := by
  unfold takeBack at taken
  split at taken
  · cases taken
  · cases taken
    rw [List.length_dropLast]
    exact Nat.sub_le _ _

end Step

theorem bodyRounds_complete {announced : Nat} (depth : Nat)
    {received : Option (List UInt8)} {body : List UInt8}
    {stream behind : ByteStream}
    (within : ∀ held, received = some held →
      held.length ≤ announced ∧ held.length ≤ bodyRoom)
    (complete : bodyRounds announced depth received stream =
      some (.complete body, behind)) :
    body.length = announced ∧ body.length ≤ bodyRoom := by
  induction depth generalizing received stream with
  | zero =>
      cases complete
  | succ depth inductionHypothesis =>
      cases received with
      | none =>
          cases complete
      | some held =>
          rcases within held rfl with ⟨most, room⟩
          by_cases short : held.length < announced
          · cases arrived : stream.arrival
                (askedFor announced held.length) with
            | none =>
                rw [bodyRounds_error depth short arrived] at complete
                refine inductionHypothesis ?_ complete
                intro rest taken
                have shorter := takeBack_length taken
                omega
            | some bytes =>
                by_cases fits : held.length + bytes.length ≤ bodyRoom
                · rw [bodyRounds_bytes depth short arrived fits] at complete
                  refine inductionHypothesis ?_ complete
                  intro rest same
                  cases same
                  rw [List.length_append]
                  exact ⟨arrival_within short arrived fits, fits⟩
                · rw [bodyRounds_overrun depth short arrived
                    (Nat.not_le.mp fits)] at complete
                  cases complete
          · rw [bodyRounds_done depth (Nat.not_lt.mp short)] at complete
            cases complete
            omega

theorem frameRounds_complete {depth : Nat} {body : List UInt8}
    {stream behind : ByteStream}
    (complete : frameRounds depth stream = some (.complete body, behind)) :
    body.length = announcedLength stream ∧ body.length ≤ bodyRoom := by
  refine bodyRounds_complete depth ?_ complete
  intro held same
  cases same
  exact ⟨Nat.zero_le _, Nat.zero_le _⟩

theorem bodyRounds_deeper {announced depth deeper : Nat}
    {received : Option (List UInt8)} {stream : ByteStream}
    {finished : BodyEnd × ByteStream} (more : depth ≤ deeper)
    (reached : bodyRounds announced depth received stream =
      some finished) :
    bodyRounds announced deeper received stream = some finished := by
  induction depth generalizing deeper received stream with
  | zero =>
      cases reached
  | succ depth inductionHypothesis =>
      obtain ⟨deeper, rfl⟩ : ∃ less, deeper = less + 1 :=
        ⟨deeper - 1, by omega⟩
      have still : depth ≤ deeper := Nat.le_of_succ_le_succ more
      cases received with
      | none =>
          exact reached
      | some body =>
          by_cases short : body.length < announced
          · cases arrived : stream.arrival
                (askedFor announced body.length) with
            | none =>
                rw [bodyRounds_error depth short arrived] at reached
                rw [bodyRounds_error deeper short arrived]
                exact inductionHypothesis still reached
            | some bytes =>
                by_cases fits : body.length + bytes.length ≤ bodyRoom
                · rw [bodyRounds_bytes depth short arrived fits] at reached
                  rw [bodyRounds_bytes deeper short arrived fits]
                  exact inductionHypothesis still reached
                · rw [bodyRounds_overrun depth short arrived
                    (Nat.not_le.mp fits)] at reached
                  rw [bodyRounds_overrun deeper short arrived
                    (Nat.not_le.mp fits)]
                  exact reached
          · rw [bodyRounds_done depth (Nat.not_lt.mp short)] at reached
            rw [bodyRounds_done deeper (Nat.not_lt.mp short)]
            exact reached

/-! ## The receive for each end of the rounds -/

section Receive

variable {socket : Socket} {fd : Nat} {Response : Type}
  {responseNew : List UInt8 → Exec Response} {depth : Nat}
  {body : List UInt8} {behind : ByteStream}

theorem receiveFrame_unfinished (isOpen : socket.sockDesc = some fd)
    (rounds : frameRounds depth socket.stream = none) :
    ((receiveFrame responseNew depth).from socket).1 =
      .error .unfinished := by
  have follows := receiveFrame_follows responseNew depth isOpen
  rw [rounds] at follows
  exact follows

theorem receiveFrame_overrun (isOpen : socket.sockDesc = some fd)
    (rounds : frameRounds depth socket.stream = some (.overrun, behind)) :
    ((receiveFrame responseNew depth).from socket).1 =
      .error .writePast := by
  have follows := receiveFrame_follows responseNew depth isOpen
  rw [rounds] at follows
  exact follows

/-- The ends of the rounds at which a receive returns `EXIT_FAILURE`. -/
def BodyEnd.Fails (finish : BodyEnd) : Prop :=
  finish = .broken ∨ finish = .complete []

theorem receiveFrame_fails {finish : BodyEnd} (fails : finish.Fails)
    (isOpen : socket.sockDesc = some fd)
    (rounds : frameRounds depth socket.stream = some (finish, behind)) :
    ∃ log, (receiveFrame responseNew depth).from socket =
      (.ok none, { socket with stream := behind, log := log }) := by
  have follows := receiveFrame_follows responseNew depth isOpen
  rw [rounds] at follows
  cases ran : (receiveFrame responseNew depth).from socket with
  | mk answer final =>
      rw [ran] at follows
      rcases fails with rfl | rfl
      · rcases follows with ⟨answered, log, left⟩
        cases answered
        cases left
        exact ⟨log, rfl⟩
      · rcases follows with ⟨whenEmpty, _, log, left⟩
        cases whenEmpty rfl
        cases left
        exact ⟨log, rfl⟩

theorem receiveFrame_complete (responseNew : List UInt8 → Exec Response)
    (nonempty : body ≠ [])
    (isOpen : socket.sockDesc = some fd)
    (rounds : frameRounds depth socket.stream =
      some (.complete body, behind)) :
    ∃ out log, HoldsFrame (framePrefix socket.stream ++ body) out ∧
      (receiveFrame responseNew depth).from socket =
        ((do
          let response ← responseNew out.cells
          pure (some (out, response))),
          { socket with stream := behind, log := log }) := by
  have follows := receiveFrame_follows responseNew depth isOpen
  rw [rounds] at follows
  cases ran : (receiveFrame responseNew depth).from socket with
  | mk answer final =>
      rw [ran] at follows
      rcases follows with ⟨_, whenFull, log, left⟩
      rcases whenFull nonempty with ⟨out, frame, answered⟩
      cases answered
      cases left
      exact ⟨out, log, frame, rfl⟩

/-- How the rounds end when a receive answers, and what it answers then. -/
inductive ReceiveEnds (responseNew : List UInt8 → Exec Response)
    (stream : ByteStream) : BodyEnd → Option (Buffer × Response) → Prop
  | fails {finish : BodyEnd} (fails : finish.Fails) :
      ReceiveEnds responseNew stream finish none
  | receives {body : List UInt8} {out : Buffer} {response : Response}
      (nonempty : body ≠ [])
      (frame : HoldsFrame (framePrefix stream ++ body) out)
      (responded : responseNew out.cells = .ok response) :
      ReceiveEnds responseNew stream (.complete body) (some (out, response))

theorem receiveFrame_answers {received : Option (Buffer × Response)}
    {final : Socket} (isOpen : socket.sockDesc = some fd)
    (ran : (receiveFrame responseNew depth).from socket =
      (.ok received, final)) :
    ∃ finish behind log,
      frameRounds depth socket.stream = some (finish, behind) ∧
      ReceiveEnds responseNew socket.stream finish received ∧
      final = { socket with stream := behind, log := log } := by
  have follows := receiveFrame_follows responseNew depth isOpen
  rw [ran] at follows
  cases rounds : frameRounds depth socket.stream with
  | none =>
      rw [rounds] at follows
      cases follows
  | some finished =>
      rcases finished with ⟨finish, behind⟩
      rw [rounds] at follows
      cases finish with
      | overrun => cases follows
      | broken =>
          rcases follows with ⟨answered, log, left⟩
          cases answered
          exact ⟨_, behind, log, rfl, .fails (.inl rfl), left⟩
      | complete body =>
          rcases follows with ⟨whenEmpty, whenFull, log, left⟩
          refine ⟨_, behind, log, rfl, ?_, left⟩
          by_cases empty : body = []
          · cases whenEmpty empty
            exact .fails (.inr (by rw [empty]))
          · rcases whenFull empty with ⟨out, frame, answered⟩
            cases responded : responseNew out.cells with
            | error stop =>
                rw [responded] at answered
                cases answered
            | ok response =>
                rw [responded] at answered
                cases answered
                exact .receives empty frame responded

theorem frameRounds_deeper {stream : ByteStream} {deeper : Nat}
    {finished : BodyEnd × ByteStream} (more : depth ≤ deeper)
    (reached : frameRounds depth stream = some finished) :
    frameRounds deeper stream = some finished :=
  bodyRounds_deeper more reached

/-- The rounds for the front of a stream reach an end. -/
def Reaches (stream : ByteStream) (finish : BodyEnd) (behind : ByteStream) :
    Prop :=
  ∃ depth, frameRounds depth stream = some (finish, behind)

end Receive

/-! ## Streams without errors -/

section Cut

variable {announced : Nat}

/-- No byte is lost or read twice. -/
theorem bodyRounds_conserve (depth : Nat) {held body : List UInt8}
    {incoming : List UInt8} {cuts : Stream' Nat} {behind : ByteStream}
    (complete : bodyRounds announced depth (some held)
      (.cutAt incoming cuts) = some (.complete body, behind)) :
    body ++ behind.incoming = held ++ incoming := by
  induction depth generalizing held incoming cuts with
  | zero =>
      cases complete
  | succ depth inductionHypothesis =>
      by_cases short : held.length < announced
      · have arrived := ByteStream.cutAt_arrival incoming cuts
          (askedFor announced held.length)
        by_cases fits : held.length + (incoming.take (min
            (askedFor announced held.length) (cuts.head + 1))).length ≤
              bodyRoom
        · rw [bodyRounds_bytes depth short arrived fits,
            ByteStream.cutAt_after] at complete
          rw [inductionHypothesis complete, List.append_assoc,
            List.take_append_drop]
        · rw [bodyRounds_overrun depth short arrived
            (Nat.not_le.mp fits)] at complete
          cases complete
      · rw [bodyRounds_done depth (Nat.not_lt.mp short)] at complete
        cases complete
        rfl

/-- Enough bytes complete the body, however they are cut. -/
theorem bodyRounds_completes (room : announced ≤ bodyRoom)
    {held incoming : List UInt8} (cuts : Stream' Nat)
    (most : held.length ≤ announced)
    (enough : announced ≤ held.length + incoming.length) :
    ∃ depth laterCuts, bodyRounds announced depth (some held)
      (.cutAt incoming cuts) =
        some (.complete (held ++ incoming.take (announced - held.length)),
          .cutAt (incoming.drop (announced - held.length)) laterCuts) := by
  induction lacks : announced - held.length using Nat.strongRecOn
    generalizing held incoming cuts with
  | ind missing inductionHypothesis =>
      have roomSize : bodyRoom = 34812 := rfl
      by_cases short : held.length < announced
      · have asked := askedFor_of_small short (by omega)
        have arrived := ByteStream.cutAt_arrival incoming cuts
          (askedFor announced held.length)
        have behind := ByteStream.cutAt_after incoming cuts
          (askedFor announced held.length)
        generalize size :
          min (askedFor announced held.length) (cuts.head + 1) = count
          at arrived behind
        have piece : (incoming.take count).length = count := by
          rw [List.length_take, Nat.min_eq_left (by omega)]
        have longer : (held ++ incoming.take count).length =
            held.length + count := by
          rw [List.length_append, piece]
        obtain ⟨depth, laterCuts, complete⟩ :=
          inductionHypothesis (missing - count) (by omega) cuts.tail
            (show (held ++ incoming.take count).length ≤ announced by omega)
            (show announced ≤ (held ++ incoming.take count).length +
                (incoming.drop count).length by
              rw [longer, List.length_drop]
              omega) (by omega)
        refine ⟨depth + 1, laterCuts, ?_⟩
        have all : missing = count + (missing - count) := by omega
        rw [bodyRounds_bytes depth short arrived (by omega), behind,
          complete, List.append_assoc, List.drop_drop, ← List.take_add,
          ← all]
      · refine ⟨1, cuts, ?_⟩
        rw [bodyRounds_done 0 (Nat.not_lt.mp short), ← lacks,
          Nat.sub_eq_zero_of_le (Nat.not_lt.mp short), List.take_zero,
          List.append_nil, List.drop_zero]

end Cut

theorem framePrefix_cutAt {four : List UInt8} (length : four.length = 4)
    (behind : List UInt8) (cuts : Stream' Nat) :
    framePrefix (.cutAt (four ++ behind) cuts) =
      four.take (min 4 (cuts.head + 1)) ++
        List.replicate (4 - min 4 (cuts.head + 1)) 0 := by
  have taken : (four ++ behind).take (min 4 (cuts.head + 1)) =
      four.take (min 4 (cuts.head + 1)) :=
    List.take_append_of_le_length (by omega)
  have size : (four.take (min 4 (cuts.head + 1))).length =
      min 4 (cuts.head + 1) := by
    rw [List.length_take]
    omega
  simp only [framePrefix, ByteStream.cutAt_arrival, Option.getD_some, taken,
    size]

/-- A body that fits is received whole when its prefix arrives in one
piece. -/
theorem frameRounds_framed {body : List UInt8} (room : body.length ≤ bodyRoom)
    (rest : List UInt8) {cuts : Stream' Nat}
    (whole : 4 ≤ cuts.head + 1) :
    framePrefix
        (.cutAt (bigEndian32 body.length ++ (body ++ rest)) cuts) =
      bigEndian32 body.length ∧
    ∃ depth laterCuts, frameRounds depth
        (.cutAt (bigEndian32 body.length ++ (body ++ rest)) cuts) =
      some (.complete body, .cutAt rest laterCuts) := by
  have roomSize : bodyRoom = 34812 := rfl
  have four : (bigEndian32 body.length).length = 4 := rfl
  have isPrefix := framePrefix_cutAt four (body ++ rest) cuts
  rw [Nat.min_eq_left whole] at isPrefix
  have read : framePrefix
      (.cutAt (bigEndian32 body.length ++ (body ++ rest)) cuts) =
        bigEndian32 body.length :=
    isPrefix.trans (List.append_nil _)
  refine ⟨read, ?_⟩
  obtain ⟨depth, laterCuts, complete⟩ := bodyRounds_completes room cuts.tail
    (show ([] : List UInt8).length ≤ body.length by simp)
    (show body.length ≤ ([] : List UInt8).length + (body ++ rest).length
      by simp)
  refine ⟨depth, laterCuts, ?_⟩
  rw [List.nil_append, List.length_nil, Nat.sub_zero, List.take_left,
    List.drop_left] at complete
  rw [frameRounds, announcedLength, read,
    bigEndian_bigEndian32 (by omega), ByteStream.cutAt_after,
    Nat.min_eq_left whole]
  exact complete

end UvgTorrent
