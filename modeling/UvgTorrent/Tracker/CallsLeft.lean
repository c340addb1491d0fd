import UvgTorrent.Tracker.Attempts

/-!
# Calls left

`Tracker_connect` and `Tracker_announce` call themselves again only behind the
test of the attempts, and each of these calls is an attempt more.  No run
makes more calls than the attempts allow.
-/

namespace UvgTorrent

open CProgram CText MachineInt

variable {order : ByteOrder} {hash : CString} {run middle : TrackerRun}
  {depth first second rounds : Nat}

/-- The attempts count as before. -/
structure SameAttempts (run after : TrackerRun) : Prop where
  attempts : after.tracker.attempts = run.tracker.attempts
  maxAttempts : after.tracker.maxAttempts = run.tracker.maxAttempts

/-- One more call leaves one call less. -/
theorem SameAttempts.calls (same : SameAttempts run middle)
    (further : middle.tracker.attempts < middle.tracker.maxAttempts) :
    middle.oneMore.tracker.calls + 1 = run.tracker.calls := by
  have fewer : run.tracker.attempts < run.tracker.maxAttempts := by
    rw [← same.attempts, ← same.maxAttempts]
    exact further
  show middle.tracker.maxAttempts - (middle.tracker.attempts + 1) + 1 + 1 =
    run.tracker.maxAttempts - run.tracker.attempts + 1
  rw [same.attempts, same.maxAttempts]
  omega

theorem sameAttempts_socketConnect {answer : Exec ExitCode}
    (connecting : trackerSocketConnect.from run = (answer, middle)) :
    SameAttempts run middle := by
  simp only [trackerSocketConnect, bind_from, getState_from, setState_from,
    liftExec_from] at connecting
  cases connecting
  exact ⟨rfl, rfl⟩

theorem sameAttempts_connectAttempt
    (ran : (trackerConnectAttempt order).from run = (.ok .timedOut, middle)) :
    SameAttempts run middle := by
  rw [trackerConnectAttempt, bind_from] at ran
  cases connecting : trackerSocketConnect.from run with
  | mk answer reached =>
      rw [connecting] at ran
      cases answer with
      | error stop => cases ran
      | ok code =>
          cases code with
          | failure => cases ran
          | success =>
              rcases trackerSocketConnect_open connecting with ⟨fd, isOpen⟩
              have outcome := @trackerConnectExchange_outcome reached order fd
                isOpen
              simp only [] at ran
              rw [ran] at outcome
              cases outcome with
              | silent noReply =>
                  have same := sameAttempts_socketConnect connecting
                  exact ⟨same.attempts, same.maxAttempts⟩

theorem sameAttempts_announceExchange
    (ran : (trackerAnnounceExchange order hash).from run =
      (.ok .timedOut, middle)) :
    SameAttempts run middle := by
  have outcome := trackerAnnounceExchange_outcome order hash run
  rw [ran] at outcome
  cases outcome with
  | silent read noReply isOpen => exact ⟨rfl, rfl⟩

/-- Two calls agree where the calls that they make agree. -/
theorem trackerConnectFrom_congr
    (same : ∀ middle, SameAttempts run middle →
      middle.tracker.attempts < middle.tracker.maxAttempts →
      (trackerConnectFrom order first).from middle.oneMore =
        (trackerConnectFrom order second).from middle.oneMore) :
    (trackerConnectFrom order (first + 1)).from run =
      (trackerConnectFrom order (second + 1)).from run := by
  rw [trackerConnectFrom, trackerConnectFrom, bind_from, bind_from]
  cases attempted : (trackerConnectAttempt order).from run with
  | mk answer middle =>
      cases answer with
      | error stop => rfl
      | ok verdict =>
          cases verdict with
          | accepted value => rfl
          | refused => rfl
          | timedOut =>
              have kept := sameAttempts_connectAttempt attempted
              simp only [bind_from_ok (getState_from middle)]
              split
              · rename_i further
                rw [bind_from_ok (trackerTryAgain_from middle),
                  bind_from_ok (trackerTryAgain_from middle)]
                exact same middle kept further
              · rfl

theorem trackerAnnounceFrom_congr
    (same : ∀ middle, SameAttempts run middle →
      middle.tracker.attempts < middle.tracker.maxAttempts →
      (trackerAnnounceFrom order hash depth first).from middle.oneMore =
        (trackerAnnounceFrom order hash depth second).from middle.oneMore) :
    (trackerAnnounceFrom order hash depth (first + 1)).from run =
      (trackerAnnounceFrom order hash depth (second + 1)).from run := by
  rw [trackerAnnounceFrom, trackerAnnounceFrom,
    bind_from_ok (getState_from run), bind_from_ok (getState_from run)]
  split
  · rw [bind_from, bind_from]
    cases exchanged : (trackerAnnounceExchange order hash).from run with
    | mk answer middle =>
        cases answer with
        | error stop => rfl
        | ok verdict =>
            cases verdict with
            | accepted found => rfl
            | refused => rfl
            | timedOut =>
                have kept := sameAttempts_announceExchange exchanged
                simp only [bind_from_ok (getState_from middle)]
                split
                · rename_i further
                  rw [bind_from_ok (trackerTryAgain_from middle),
                    bind_from_ok (trackerTryAgain_from middle), bind_from,
                    bind_from, same middle kept further]
                · rfl
  · rfl

/-- Beyond the calls that the attempts allow, one more changes nothing. -/
theorem trackerConnectFrom_succ (enough : run.tracker.calls ≤ rounds) :
    (trackerConnectFrom order (rounds + 1)).from run =
      (trackerConnectFrom order rounds).from run := by
  induction rounds generalizing run with
  | zero => exact absurd enough (Nat.not_succ_le_zero _)
  | succ rounds inductionHypothesis =>
      refine trackerConnectFrom_congr fun middle kept further => ?_
      have fewer := kept.calls further
      exact inductionHypothesis (by omega)

theorem trackerAnnounceFrom_succ (enough : run.tracker.calls ≤ rounds) :
    (trackerAnnounceFrom order hash depth (rounds + 1)).from run =
      (trackerAnnounceFrom order hash depth rounds).from run := by
  induction rounds generalizing run with
  | zero => exact absurd enough (Nat.not_succ_le_zero _)
  | succ rounds inductionHypothesis =>
      refine trackerAnnounceFrom_congr fun middle kept further => ?_
      have fewer := kept.calls further
      exact inductionHypothesis (by omega)

/-- `Tracker_connect` makes no more calls of itself than it is given. -/
theorem trackerConnectFrom_enough (enough : run.tracker.calls ≤ rounds) :
    (trackerConnectFrom order rounds).from run =
      (trackerConnect order).from run := by
  rw [trackerConnect, bind_from_ok (getState_from run)]
  induction rounds, enough using Nat.le_induction with
  | base => rfl
  | succ rounds enough inductionHypothesis =>
      exact (trackerConnectFrom_succ enough).trans inductionHypothesis

/-- `Tracker_announce` makes no more calls of itself than it is given. -/
theorem trackerAnnounceFrom_enough (enough : run.tracker.calls ≤ rounds) :
    (trackerAnnounceFrom order hash depth rounds).from run =
      (trackerAnnounce order hash depth).from run := by
  rw [trackerAnnounce, bind_from_ok (getState_from run)]
  induction rounds, enough using Nat.le_induction with
  | base => rfl
  | succ rounds enough inductionHypothesis =>
      exact (trackerAnnounceFrom_succ enough).trans inductionHypothesis

end UvgTorrent
