import UvgTorrent.Tracker.Attempts
import UvgTorrent.Tracker.VisitEnds

/-!
# The retries of an announce request

`Tracker_announce` calls itself again while its attempts time out, and does
not look at what the call answers.  Nor does it give the attempts back when
the last one times out.
-/

namespace UvgTorrent

open CProgram CText CArray MachineInt Retry

/-! ## What the call needs -/

/-- The text of the hash is found and read. -/
def HashReadable (hash : CString) : Prop :=
  ∃ infoHash, extractInfoHash hash = .ok infoHash ∧
    ∀ around, ∃ bytes, scanInfoHash around infoHash = .ok bytes

section Reads

variable {hash : CString} {run : TrackerRun}
  {infoHash : List UInt8}

/-- Whether the text is long enough does not depend on the array. -/
theorem scanPairs_around {around other : Surroundings}
    {remaining count : Nat} {bytes : List UInt8}
    (scanned : scanPairs around infoHash remaining count = .ok bytes) :
    ∃ others, scanPairs other infoHash remaining count = .ok others := by
  induction remaining generalizing count bytes with
  | zero =>
      exact ⟨[], rfl⟩
  | succ remaining inductionHypothesis =>
      rw [scanPairs, bind_eq_ok_iff] at scanned
      rcases scanned with ⟨string, read, rest⟩
      rw [bind_eq_ok_iff] at rest
      rcases rest with ⟨later, further, _⟩
      rcases inductionHypothesis further with ⟨others, again⟩
      rw [scanPairs, read, ok_bind, again, ok_bind]
      exact ⟨_, rfl⟩

theorem hashReadable_iff :
    HashReadable hash ↔
      ∃ infoHash infoHashBytes, HashRead hash run infoHash infoHashBytes := by
  constructor
  · intro readable
    rcases readable with ⟨infoHash, extracted, scans⟩
    rcases scans (run.next .announce).infoHashBytes with ⟨bytes, scanned⟩
    exact ⟨infoHash, bytes, extracted, scanned⟩
  · intro readable
    rcases readable with ⟨infoHash, bytes, read⟩
    exact ⟨infoHash, read.extracted, fun _ => scanPairs_around read.scanned⟩

end Reads

/-! ## The peers -/

/-- The state behind a conversation with the next peer. -/
def TrackerRun.talkedTo (run : TrackerRun) (infoHash : List UInt8)
    (final : Peer) : TrackerRun :=
  { run.record [.handshake infoHash] with
    visits := run.visits.tail
    visited := run.visited ++ [final] }

section Visits

variable {infoHash : List UInt8} {depth : Nat} {run after : TrackerRun}

/-- A round of the loop. -/
theorem visitAnnounced_cons {final : Peer} {answer : Exec Unit}
    (ended : (visitPeerOn infoHash depth run.visits.head).from
      run.visits.head.peer = (answer, final))
    (peer : AnnouncedPeer) (rest : List AnnouncedPeer) :
    (visitAnnounced infoHash depth (peer :: rest)).from run =
      (liftExec answer >>= fun _ =>
        visitAnnounced infoHash depth rest).from
          (run.talkedTo infoHash final) := by
  have event : (recordEvent (.handshake infoHash)).from run =
      (.ok (), run.record [.handshake infoHash]) :=
    rfl
  have visit : (visitNext infoHash depth).from
      (run.record [.handshake infoHash]) =
        (((visitPeerOn infoHash depth run.visits.head).from
            run.visits.head.peer).1,
          run.talkedTo infoHash ((visitPeerOn infoHash depth
            run.visits.head).from run.visits.head.peer).2) :=
    rfl
  rw [ended] at visit
  rw [visitAnnounced, bind_from_ok event, bind_from, bind_from, visit,
    liftExec_from]

end Visits

/-! ## One attempt -/

/-- What `Tracker_announce` needs to send a request. -/
structure AnnounceReady (hash : CString) (run : TrackerRun) : Prop where
  readable : HashReadable hash
  isOpen : ∃ fd, run.tracker.descriptor = some fd

/-- What is left after so many attempts that have timed out. -/
structure AnnounceWaited (count : Nat) (run after : TrackerRun) :
    Prop where
  sends : Sends count run after
  coming : after.coming .announce = (run.coming .announce).drop count
  attempts : after.tracker.attempts = run.tracker.attempts + count
  maxAttempts : after.tracker.maxAttempts = run.tracker.maxAttempts
  connected : after.tracker.connected = run.tracker.connected
  descriptor : after.tracker.descriptor = run.tracker.descriptor
  visits : after.visits = run.visits

/-- The answer of one of the calls, as the first one passes it on. -/
def passedOn (count : Nat) (answer : Exec ExitCode) : Exec ExitCode :=
  match count with
  | 0 => answer
  | _ + 1 => answer.map fun _ => .success

section Attempt

variable {order : ByteOrder} {hash : CString} {run : TrackerRun}
  {depth rounds : Nat}

theorem announceReady_iff :
    AnnounceReady hash run ↔
      (∃ fd, run.tracker.descriptor = some fd) ∧
      ∃ infoHash infoHashBytes,
        HashRead hash run infoHash infoHashBytes := by
  rw [← hashReadable_iff]
  exact ⟨fun ready => ⟨ready.isOpen, ready.readable⟩,
    fun needs => ⟨needs.2, needs.1⟩⟩

theorem AnnounceReady.not_unready (ready : AnnounceReady hash run) :
    ¬ (run.tracker.descriptor = none ∨ ∀ infoHash infoHashBytes,
      ¬ HashRead hash run infoHash infoHashBytes) := by
  rcases announceReady_iff.mp ready with ⟨⟨fd, isOpen⟩, _, _, read⟩
  intro unready
  rcases unready with isClosed | unread
  · cases isOpen.symm.trans isClosed
  · exact unread _ _ read

theorem trackerAnnounceExchange_silent (ready : AnnounceReady hash run)
    (silent : (run.next .announce).reply = none) :
    ∃ message, (trackerAnnounceExchange order hash).from run =
      (.ok .timedOut, (run.began .announce).record
        [.sent .announce message (run.next .announce).code,
          .timedOut]) := by
  have outcome := trackerAnnounceExchange_outcome order hash run
  generalize (trackerAnnounceExchange order hash).from run = ended at *
  cases outcome with
  | unsent stop unready => exact absurd unready ready.not_unready
  | silent read noReply => exact ⟨_, rfl⟩
  | refused read arrived => cases silent.symm.trans arrived
  | accepted read arrived => cases silent.symm.trans arrived

end Attempt

/-! ## The calls -/

section Calls

variable {order : ByteOrder} {hash : CString} {run : TrackerRun}
  {depth rounds : Nat}

theorem trackerAnnounceFrom_connected
    (connected : run.tracker.connected = true) :
    (trackerAnnounceFrom order hash depth (rounds + 1)).from run =
      (trackerAnnounceExchange order hash >>= fun verdict =>
        match verdict with
        | .accepted (peers, infoHash) => do
            visitAnnounced infoHash depth peers
            pure .success
        | .refused => trackerGiveUp
        | .timedOut => do
            let this ← getState
            if this.tracker.attempts < this.tracker.maxAttempts then
              trackerTryAgain
              let _ ← trackerAnnounceFrom order hash depth rounds
              pure .success
            else
              pure .success).from run := by
  rw [trackerAnnounceFrom]
  exact (bind_from_ok (getState_from run) _).trans
    (congrArg (fun program : Prog TrackerRun ExitCode => program.from run)
      (if_pos connected))

/-- The last attempt times out. -/
theorem trackerAnnounceFrom_last (ready : AnnounceReady hash run)
    (connected : run.tracker.connected = true)
    (silent : (run.next .announce).reply = none)
    (full : run.tracker.attempts = run.tracker.maxAttempts) :
    ∃ after, (trackerAnnounceFrom order hash depth (rounds + 1)).from run =
        (.ok .success, after) ∧
      after.tracker.attempts = run.tracker.maxAttempts := by
  rcases @trackerAnnounceExchange_silent order hash run ready silent with
    ⟨message, ran⟩
  rw [trackerAnnounceFrom_connected connected, bind_from_ok ran]
  simp only []
  rw [bind_from_ok (getState_from _), if_neg (by
    show ¬ run.tracker.attempts < run.tracker.maxAttempts
    omega)]
  exact ⟨_, rfl, full⟩

/-- An attempt that times out, with attempts left. -/
theorem trackerAnnounceFrom_again (ready : AnnounceReady hash run)
    (connected : run.tracker.connected = true)
    (silent : (run.next .announce).reply = none)
    (further : run.tracker.attempts < run.tracker.maxAttempts) :
    ∃ middle, AnnounceWaited 1 run middle ∧
      (trackerAnnounceFrom order hash depth (rounds + 1)).from run =
        (trackerAnnounceFrom order hash depth rounds >>= fun _ =>
          pure .success).from middle := by
  rcases @trackerAnnounceExchange_silent order hash run ready silent with
    ⟨message, ran⟩
  rw [trackerAnnounceFrom_connected connected, bind_from_ok ran]
  simp only []
  rw [bind_from_ok (getState_from _), if_pos (by exact further),
    bind_from_ok (trackerTryAgain_from _)]
  refine ⟨_, ?_, rfl⟩
  exact ⟨⟨_, rfl, rfl⟩, rfl, rfl, rfl, rfl, rfl, rfl⟩

/-- The attempts that time out before the others. -/
theorem trackerAnnounceFrom_waits {count : Nat}
    (ready : AnnounceReady hash run)
    (connected : run.tracker.connected = true)
    (silent : ∀ earlier < count,
      ((run.coming .announce).get earlier).reply = none)
    (further : run.tracker.attempts + count ≤ run.tracker.maxAttempts) :
    ∃ middle, AnnounceWaited count run middle ∧
      (trackerAnnounceFrom order hash depth (rounds + count)).from run =
        (passedOn count
          ((trackerAnnounceFrom order hash depth rounds).from middle).1,
          ((trackerAnnounceFrom order hash depth rounds).from middle).2) := by
  induction count generalizing run with
  | zero =>
      exact ⟨run, ⟨.none rfl, rfl, rfl, rfl, rfl, rfl, rfl⟩, rfl⟩
  | succ count inductionHypothesis =>
      rcases @trackerAnnounceFrom_again order hash run depth (rounds + count)
        ready connected (silent 0 (Nat.succ_pos count)) (by omega) with
        ⟨first, waited, ran⟩
      have coming : first.coming .announce =
          (run.coming .announce).tail :=
        waited.coming
      rcases @inductionHypothesis first
        ⟨ready.readable, waited.descriptor ▸ ready.isOpen⟩
        (waited.connected.trans connected)
        (fun earlier before => by
          rw [coming]
          exact silent (earlier + 1) (Nat.succ_lt_succ before))
        (by rw [waited.attempts, waited.maxAttempts]; omega) with
        ⟨middle, later, rest⟩
      refine ⟨middle, ⟨?_, ?_, ?_, ?_, ?_, ?_, ?_⟩, ?_⟩
      · exact Nat.add_comm 1 count ▸ waited.sends.trans later.sends
      · rw [later.coming, coming]
        rfl
      · rw [later.attempts, waited.attempts]
        omega
      · exact later.maxAttempts.trans waited.maxAttempts
      · exact later.connected.trans waited.connected
      · exact later.descriptor.trans waited.descriptor
      · exact later.visits.trans waited.visits
      · rw [← Nat.add_assoc, ran, bind_from, rest]
        generalize (trackerAnnounceFrom order hash depth rounds).from
          middle = ended
        rcases ended with ⟨answer, after⟩
        cases answer with
        | error stop =>
            cases count with
            | zero => rfl
            | succ count => rfl
        | ok code =>
            cases count with
            | zero => rfl
            | succ count => rfl

end Calls

/-! ## What the call comes to -/

section Report

variable {order : ByteOrder} {hash : CString} {run : TrackerRun}
  {index depth : Nat}

/-- The calls before the first one that hears something. -/
theorem trackerAnnounce_waits (connected : run.tracker.connected = true)
    (fresh : run.tracker.attempts = 0) (five : run.tracker.maxAttempts = 5)
    (ready : AnnounceReady hash run) (within : index ≤ 5)
    (silent : ∀ earlier < index,
      ((run.coming .announce).get earlier).reply = none) :
    ∃ middle, AnnounceWaited index run middle ∧
      AnnounceReady hash middle ∧ middle.tracker.connected = true ∧
      middle.next .announce = (run.coming .announce).get index ∧
      (trackerAnnounce order hash depth).from run =
        (passedOn index ((trackerAnnounceFrom order hash depth
            (5 - index + 1)).from middle).1,
          ((trackerAnnounceFrom order hash depth
            (5 - index + 1)).from middle).2) := by
  rcases @trackerAnnounceFrom_waits order hash run depth (5 - index + 1)
    index ready connected silent (by omega) with ⟨middle, waited, ran⟩
  have calls : run.tracker.calls = 5 - index + 1 + index := by
    rw [Tracker.calls, fresh, five]
    omega
  refine ⟨middle, waited, ⟨ready.readable, waited.descriptor ▸ ready.isOpen⟩,
    waited.connected.trans connected, ?_, ?_⟩
  · rw [TrackerRun.next, waited.coming, Stream'.head_drop]
  · rw [trackerAnnounce, bind_from_ok (getState_from run), calls, ran]

theorem passedOn_success (index : Nat) :
    passedOn index (.ok .success) = .ok .success := by
  cases index with
  | zero => rfl
  | succ index => rfl

section Settled

variable (connected : run.tracker.connected = true)
  (fresh : run.tracker.attempts = 0) (five : run.tracker.maxAttempts = 5)
  (long : ∀ count,
    ((run.coming .announce).get count).LongReply .announce)
  (ready : AnnounceReady hash run)

include connected fresh five ready

/-- All attempts time out, and the call succeeds. -/
theorem trackerAnnounce_silent (depth : Nat)
    (silent : ∀ index < 6, ((run.coming .announce).get index).Silent) :
    ∃ after, (trackerAnnounce order hash depth).from run =
        (.ok .success, after) ∧ after.tracker.attempts = 5 := by
  rcases @trackerAnnounce_waits order hash run 5 depth connected fresh five
    ready le_rfl (fun earlier before => silent earlier (by omega)) with
    ⟨middle, waited, still, open', next, calls⟩
  rcases @trackerAnnounceFrom_last order hash middle depth (5 - 5) still
    open' (next ▸ silent 5 (by decide))
    (by rw [waited.attempts, waited.maxAttempts, fresh, five]) with
    ⟨final, ended, spent⟩
  rw [ended, passedOn_success] at calls
  exact ⟨final, calls, by rw [spent, waited.maxAttempts, five]⟩

include long

end Settled

end Report

/-- A tracker that has been connected. -/
def TrackerFuture.connected (future : TrackerFuture) : TrackerRun :=
  { future.start with tracker := { trackerNew with
      connected := true
      trackerSocket := some ⟨.udp, some 3, []⟩ } }

/-- No attempt is answered. -/
def silentFuture : TrackerFuture :=
  { answeredFuture true with
    coming := fun _ => .const { attemptOf true [] with reply := none } }

end UvgTorrent
