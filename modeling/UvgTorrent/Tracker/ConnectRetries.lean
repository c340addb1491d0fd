import UvgTorrent.Tracker.Attempts

/-!
# The retries of a connect request

`Tracker_connect` calls itself again while its attempts time out.  The first
attempt that does not time out decides what it answers.
-/

namespace UvgTorrent

open CProgram CText CArray MachineInt Retry

/-! ## One attempt -/

/-- No unknown host ends the program. -/
def Descriptors.Outcome.Returns (outcome : Descriptors.Outcome) : Prop :=
  outcome.socket = none ∨ outcome.gethostbyname = true

/-- The type of the socket, once there is one. -/
def Tracker.socketType (tracker : Tracker) : Descriptors.SocketType :=
  (tracker.trackerSocket.getD (Descriptors.socketNew .udp)).type

/-- What is decided for the calls of `Tracker_connect` that follow. -/
def TrackerRun.connectTrials (run : TrackerRun) :
    Stream' (Descriptors.Outcome × Attempt) :=
  Stream'.zip Prod.mk run.connecting (run.coming .connect)

/-- The socket connects, and no datagram comes. -/
def ConnectTimesOut (type : Descriptors.SocketType)
    (trial : Descriptors.Outcome × Attempt) : Prop :=
  (Descriptors.obtained type trial.1).isSome ∧ trial.2.reply = none

/-- The socket connects, and a datagram comes that passes the test. -/
def ConnectPasses (order : ByteOrder) (type : Descriptors.SocketType)
    (trial : Descriptors.Outcome × Attempt) : Prop :=
  (Descriptors.obtained type trial.1).isSome ∧
    trial.2.Answered order .connect

/-- The connection is the one of a datagram that came. -/
def ConnectTells (connectionId : Int64)
    (trial : Descriptors.Outcome × Attempt) : Prop :=
  ∃ reply, trial.2.reply = some reply ∧ connectionId = connectionIdOf reply

/-- What a call leaves alone unless it succeeds. -/
structure SameConnection (run after : TrackerRun) : Prop where
  connected : after.tracker.connected = run.tracker.connected
  connectionId : after.tracker.connectionId = run.tracker.connectionId

/-- What the next attempt finds as this one did. -/
structure GoesOn (run after : TrackerRun) : Prop where
  attempts : after.tracker.attempts = run.tracker.attempts
  maxAttempts : after.tracker.maxAttempts = run.tracker.maxAttempts
  socketType : after.tracker.socketType = run.tracker.socketType

/-- What an attempt comes to, and what it leaves. -/
inductive ConnectAttempted (order : ByteOrder) (run : TrackerRun) :
    Verdict Unit → TrackerRun → Prop
  | timedOut {after : TrackerRun}
      (timesOut :
        ConnectTimesOut run.tracker.socketType run.connectTrials.head)
      (same : SameConnection run after) (goesOn : GoesOn run after)
      (left : after.connectTrials = run.connectTrials.tail) :
      ConnectAttempted order run .timedOut after
  | refused {after : TrackerRun}
      (heard :
        ¬ ConnectTimesOut run.tracker.socketType run.connectTrials.head)
      (fails :
        ¬ ConnectPasses order run.tracker.socketType run.connectTrials.head)
      (same : SameConnection run after) :
      ConnectAttempted order run .refused after
  | accepted {after : TrackerRun}
      (heard :
        ¬ ConnectTimesOut run.tracker.socketType run.connectTrials.head)
      (passes :
        ConnectPasses order run.tracker.socketType run.connectTrials.head)
      (attempts : after.tracker.attempts = 0)
      (connected : after.tracker.connected = true)
      (tells : ConnectTells after.tracker.connectionId
        run.connectTrials.head) :
      ConnectAttempted order run (.accepted ()) after

section Attempt

variable {order : ByteOrder} {run : TrackerRun}

/-- What connecting the socket leaves. -/
structure SocketTried (run after : TrackerRun) : Prop where
  quiet : Quiet run after
  goesOn : GoesOn run after
  connecting : after.connecting = run.connecting.tail
  descriptor : after.tracker.descriptor =
    Descriptors.obtained run.tracker.socketType run.connecting.head

theorem trackerSocketConnect_tried
    (returns : run.connecting.head.Returns) :
    ∃ after, trackerSocketConnect.from run =
        (.ok (Descriptors.codeOf run.tracker.socketType
          run.connecting.head), after) ∧
      SocketTried run after := by
  have called := @Descriptors.socketConnect_from
    (run.tracker.trackerSocket.getD (Descriptors.socketNew .udp))
    run.connecting.head returns
  simp only [trackerSocketConnect, bind_from, getState_from, setState_from,
    liftExec_from, called]
  exact ⟨_, rfl, ⟨rfl, rfl, rfl, rfl, rfl, rfl⟩, ⟨rfl, rfl, rfl⟩, rfl,
    rfl⟩

/-- The id of a long datagram is not cut off. -/
theorem connectionIdOf_arrives (reply : List UInt8) :
    connectionIdOf (arrives reply) = connectionIdOf reply := by
  rw [connectionIdOf, arrives, List.drop_take, List.take_take]
  rfl

/-- The exchange of an attempt whose socket connects. -/
theorem connectAttempted_exchange {middle after : TrackerRun}
    {verdict : Verdict Unit} (tried : SocketTried run middle)
    (isOpen :
      (Descriptors.obtained run.tracker.socketType run.connecting.head).isSome)
    (long : (run.next .connect).LongReply .connect)
    (outcome : ConnectOutcome order middle (.ok verdict, after)) :
    ConnectAttempted order run verdict after ∧
      Sends 1 middle after := by
  have next : middle.next .connect = run.next .connect := by
    rw [TrackerRun.next, tried.quiet.coming]
    rfl
  cases outcome with
  | silent noReply =>
      rw [next] at noReply
      refine ⟨.timedOut ⟨isOpen, noReply⟩
        ⟨tried.quiet.connected, tried.quiet.connectionId⟩
        ⟨tried.goesOn.attempts, tried.goesOn.maxAttempts,
          tried.goesOn.socketType⟩ ?_, ⟨_, rfl, rfl⟩⟩
      show Stream'.zip Prod.mk middle.connecting
        (middle.coming .connect).tail = _
      rw [tried.connecting, tried.quiet.coming]
      rfl
  | @refused reply arrived response decoded fails =>
      rw [next] at arrived decoded fails
      have fields := trackerConnectResponse_fields decoded
      rw [fields] at fails
      refine ⟨.refused ?_ ?_
        ⟨tried.quiet.connected, tried.quiet.connectionId⟩,
        ⟨_, rfl, rfl⟩⟩
      · intro silent
        rcases silent with ⟨_, noReply⟩
        cases noReply.symm.trans arrived
      · intro told
        rcases told with ⟨_, other, came, passes⟩
        cases Option.some.inj (came.symm.trans arrived)
        exact fails ((passes_iff (long _ arrived)).mp passes)
  | @accepted reply arrived response decoded action same =>
      rw [next] at arrived decoded same
      have fields := trackerConnectResponse_fields decoded
      have header := long _ arrived
      have told := @connectionIdOf_array order (run.next .connect)
        (arrives reply) (arrives_long header)
      rw [← fields, connectionIdOf_arrives] at told
      rw [fields] at action same
      refine ⟨.accepted ?_ ?_ rfl rfl ⟨reply, arrived, told⟩,
        ⟨_, rfl, rfl⟩⟩
      · intro silent
        rcases silent with ⟨_, noReply⟩
        cases noReply.symm.trans arrived
      · exact ⟨isOpen, reply, arrived,
          (passes_iff header).mpr ⟨action, same.symm⟩⟩

/-- Every attempt ends. -/
theorem trackerConnectAttempt_attempted
    (returns : run.connecting.head.Returns)
    (long : (run.next .connect).LongReply .connect) :
    ∃ verdict after,
      (trackerConnectAttempt order).from run = (.ok verdict, after) ∧
      ConnectAttempted order run verdict after ∧
      SendsAtMost 1 run after := by
  rcases trackerSocketConnect_tried returns with ⟨middle, ran, tried⟩
  have quiet := Sends.none tried.quiet.log
  rw [trackerConnectAttempt, bind_from_ok ran, Descriptors.codeOf]
  by_cases isOpen : (Descriptors.obtained run.tracker.socketType
    run.connecting.head).isSome
  · obtain ⟨fd, held⟩ := Option.isSome_iff_exists.mp isOpen
    have outcome := @trackerConnectExchange_outcome middle order fd
      (tried.descriptor.trans held)
    rw [if_pos isOpen]
    cases exchanged : (trackerConnectExchange order).from middle with
    | mk answer after =>
        rw [exchanged] at outcome
        cases answer with
        | error stop => cases outcome
        | ok verdict =>
            rcases connectAttempted_exchange tried isOpen long outcome with
              ⟨attempted, sends⟩
            exact ⟨verdict, after, rfl, attempted, 1, quiet.trans sends,
              le_rfl⟩
  · rw [if_neg isOpen]
    refine ⟨.refused, middle, rfl, .refused ?_ ?_
      ⟨tried.quiet.connected, tried.quiet.connectionId⟩,
      0, quiet, Nat.zero_le 1⟩
    · exact fun timesOut => isOpen timesOut.1
    · exact fun passes => isOpen passes.1

end Attempt

/-! ## The attempts -/

/-- What a call with so many attempts left comes to. -/
structure ConnectReport (order : ByteOrder) (run : TrackerRun)
    (budget : Nat) (code : ExitCode) (after : TrackerRun) : Prop where
  sends : SendsAtMost budget run after
  attempts : after.tracker.attempts = 0
  succeeds : code = .success ↔
    SettlesWith (ConnectTimesOut run.tracker.socketType)
      (ConnectPasses order run.tracker.socketType) run.connectTrials budget
  connected : code = .success → after.tracker.connected = true
  tells : code = .success →
    SettlesWith (ConnectTimesOut run.tracker.socketType)
      (ConnectTells after.tracker.connectionId) run.connectTrials budget
  same : code = .failure → SameConnection run after

section Report

variable {order : ByteOrder} {run middle after : TrackerRun}
  {budget : Nat} {code : ExitCode}

/-- The report of a call whose first attempt times out. -/
theorem ConnectReport.again
    (timesOut : ConnectTimesOut run.tracker.socketType run.connectTrials.head)
    (same : SameConnection run middle)
    (socketType : middle.tracker.socketType = run.tracker.socketType)
    (left : middle.connectTrials = run.connectTrials.tail)
    (sends : SendsAtMost 1 run middle)
    (report : ConnectReport order middle budget code after) :
    ConnectReport order run (budget + 1) code after where
  sends := Nat.add_comm budget 1 ▸ sends.trans report.sends
  attempts := report.attempts
  succeeds := by
    rw [settlesWith_silent timesOut, report.succeeds, socketType, left]
  connected := report.connected
  tells := by
    intro succeeded
    rw [settlesWith_silent timesOut, ← socketType, ← left]
    exact report.tells succeeded
  same := fun failed =>
    ⟨(report.same failed).connected.trans same.connected,
      (report.same failed).connectionId.trans same.connectionId⟩

/-- The report of a call that gives up. -/
theorem ConnectReport.gaveUp (sends : SendsAtMost (budget + 1) run after)
    (fails : ¬ SettlesWith (ConnectTimesOut run.tracker.socketType)
      (ConnectPasses order run.tracker.socketType) run.connectTrials
      (budget + 1))
    (attempts : after.tracker.attempts = 0)
    (same : SameConnection run after) :
    ConnectReport order run (budget + 1) .failure after where
  sends := sends
  attempts := attempts
  succeeds := by
    constructor
    · intro succeeded
      cases succeeded
    · intro settles
      exact absurd settles fails
  connected := by
    intro succeeded
    cases succeeded
  tells := by
    intro succeeded
    cases succeeded
  same := fun _ => same

/-- The report of a call whose first attempt is refused. -/
theorem ConnectReport.refused (sends : SendsAtMost 1 run after)
    (heard :
      ¬ ConnectTimesOut run.tracker.socketType run.connectTrials.head)
    (fails :
      ¬ ConnectPasses order run.tracker.socketType run.connectTrials.head)
    (attempts : after.tracker.attempts = 0)
    (same : SameConnection run after) :
    ConnectReport order run (budget + 1) .failure after :=
  .gaveUp (sends.mono (Nat.le_add_left 1 budget))
    (fun settles => fails ((settlesWith_heard heard).mp settles))
    attempts same

/-- The report of a call whose first attempt is accepted. -/
theorem ConnectReport.accepted (sends : SendsAtMost 1 run after)
    (heard :
      ¬ ConnectTimesOut run.tracker.socketType run.connectTrials.head)
    (passes :
      ConnectPasses order run.tracker.socketType run.connectTrials.head)
    (attempts : after.tracker.attempts = 0)
    (connected : after.tracker.connected = true)
    (tells : ConnectTells after.tracker.connectionId
      run.connectTrials.head) :
    ConnectReport order run (budget + 1) .success after where
  sends := sends.mono (Nat.le_add_left 1 budget)
  attempts := attempts
  succeeds := by
    rw [settlesWith_heard heard]
    exact iff_of_true rfl passes
  connected := fun _ => connected
  tells := fun _ => (settlesWith_heard heard).mpr tells
  same := by
    intro failed
    cases failed

/-- A call with attempts left ends. -/
theorem trackerConnectFrom_report
    (counted : run.tracker.attempts + budget = run.tracker.maxAttempts)
    (returns : ∀ count, (run.connectTrials.get count).1.Returns)
    (long : ∀ count, (run.connectTrials.get count).2.LongReply .connect) :
    ∃ code after,
      (trackerConnectFrom order (budget + 1)).from run = (.ok code, after) ∧
      ConnectReport order run (budget + 1) code after := by
  induction budget generalizing run with
  | zero =>
      rcases @trackerConnectAttempt_attempted order run (returns 0) (long 0)
        with ⟨verdict, middle, ran, attempted, sends⟩
      rw [trackerConnectFrom, bind_from_ok ran]
      cases attempted with
      | timedOut timesOut same goesOn left =>
          have full : ¬ middle.tracker.attempts <
              middle.tracker.maxAttempts := by
            rw [goesOn.attempts, goesOn.maxAttempts]
            omega
          simp only []
          rw [bind_from_ok (getState_from middle), if_neg full]
          refine ⟨.failure, _, rfl, .gaveUp sends ?_ rfl
            ⟨same.connected, same.connectionId⟩⟩
          rw [settlesWith_silent timesOut]
          exact not_settlesWith_zero
      | refused heard fails same =>
          exact ⟨.failure, _, rfl, .refused sends heard fails rfl
            ⟨same.connected, same.connectionId⟩⟩
      | accepted heard passes attempts connected tells =>
          exact ⟨.success, middle, rfl,
            .accepted sends heard passes attempts connected tells⟩
  | succ budget inductionHypothesis =>
      rcases @trackerConnectAttempt_attempted order run (returns 0) (long 0)
        with ⟨verdict, middle, ran, attempted, sends⟩
      rw [trackerConnectFrom, bind_from_ok ran]
      cases attempted with
      | timedOut timesOut same goesOn left =>
          have further : middle.tracker.attempts <
              middle.tracker.maxAttempts := by
            rw [goesOn.attempts, goesOn.maxAttempts]
            omega
          have later : middle.oneMore.tracker.attempts + budget =
              middle.oneMore.tracker.maxAttempts := by
            show middle.tracker.attempts + 1 + budget =
              middle.tracker.maxAttempts
            rw [goesOn.attempts, goesOn.maxAttempts]
            omega
          have trials : middle.oneMore.connectTrials =
              run.connectTrials.tail :=
            left
          simp only []
          rw [bind_from_ok (getState_from middle), if_pos further,
            bind_from_ok (trackerTryAgain_from middle)]
          rcases inductionHypothesis later
            (fun count => trials ▸ returns (count + 1))
            (fun count => trials ▸ long (count + 1)) with
            ⟨code, after, ended, report⟩
          exact ⟨code, after, ended, .again timesOut
            (show SameConnection run middle.oneMore from
              ⟨same.connected, same.connectionId⟩)
            goesOn.socketType trials sends report⟩
      | refused heard fails same =>
          exact ⟨.failure, _, rfl, .refused sends heard fails rfl
            ⟨same.connected, same.connectionId⟩⟩
      | accepted heard passes attempts connected tells =>
          exact ⟨.success, middle, rfl,
            .accepted sends heard passes attempts connected tells⟩

end Report

/-- `Tracker_connect` sends at most six requests, and succeeds if and only
if the first attempt that does not time out is answered. -/
theorem trackerConnect_exact (order : ByteOrder) {run : TrackerRun}
    (fresh : run.tracker.attempts = 0) (five : run.tracker.maxAttempts = 5)
    (returns : ∀ count, (run.connecting.get count).Returns)
    (long : ∀ count,
      ((run.coming .connect).get count).LongReply .connect) :
    ∃ code after, (trackerConnect order).from run = (.ok code, after) ∧
      ConnectReport order run 6 code after := by
  have calls : run.tracker.calls = 5 + 1 := by
    rw [Tracker.calls, fresh, five]
  rw [trackerConnect, bind_from_ok (getState_from run), calls]
  exact trackerConnectFrom_report (by rw [fresh, five]) returns long

theorem trackerConnect_exact_late :
    ∃ code after,
      (trackerConnect .little).from lateFuture.start = (.ok code, after) ∧
      ConnectReport .little lateFuture.start 6 code after :=
  trackerConnect_exact .little rfl rfl (fun _ => .inr rfl)
    (lateFuture_long .connect)

end UvgTorrent
