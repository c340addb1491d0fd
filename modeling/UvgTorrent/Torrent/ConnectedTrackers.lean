import UvgTorrent.Torrent.Trackers

/-!
# The connected trackers

`Torrent_connect` starts with `success` set and takes the bitwise or of it
and every exit code.
-/

namespace UvgTorrent

open CProgram

/-- The loop of `Torrent_connect` with its two variables. -/
def connectLoop {σ : Type} (connect : Prog σ ExitCode)
    (success connectedTrackers : Nat) : List σ → Exec (Nat × Nat) × List σ
  | [] => (.ok (success, connectedTrackers), [])
  | tracker :: rest =>
      match connect.from tracker with
      | (.ok status, final) =>
          let others := connectLoop connect (success ||| status.value)
            (if status = .success then connectedTrackers + 1
              else connectedTrackers) rest
          (others.1, final :: others.2)
      | (.error stop, final) => (.error stop, final :: rest)

/-- The call of a tracker returns `EXIT_SUCCESS`. -/
def connects {σ : Type} (connect : Prog σ ExitCode) (tracker : σ) : Bool :=
  (connect.from tracker).1 = .ok .success

/-- The call of a tracker returns. -/
def ConnectReturns {σ : Type} (connect : Prog σ ExitCode) (tracker : σ) :
    Prop :=
  ∃ status, (connect.from tracker).1 = .ok status

section Loop

variable {σ : Type} {connect : Prog σ ExitCode}

/-- The loop is the one over the answers of the calls. -/
theorem connectLoop_eq (success connectedTrackers : Nat)
    (trackers : List σ) :
    connectLoop connect success connectedTrackers trackers =
      (((runEach connect).from trackers).1.map fun statuses =>
          (statuses.foldl
            (fun success status => success ||| status.value) success,
            connectedTrackers + statuses.count .success),
        ((runEach connect).from trackers).2) := by
  induction trackers generalizing success connectedTrackers with
  | nil =>
      rfl
  | cons tracker rest inductionHypothesis =>
      rw [connectLoop, runEach_cons]
      cases called : connect.from tracker with
      | mk answer final =>
          cases answer with
          | error stop => rfl
          | ok status =>
              simp only [inductionHypothesis]
              cases ((runEach connect).from rest).1 with
              | error stop => rfl
              | ok statuses =>
                  cases status with
                  | success =>
                      simp [Except.map, Nat.add_assoc, Nat.add_comm 1]
                  | failure =>
                      simp [Except.map]

/-- `Torrent_connect` behind its loop. -/
theorem connectEach_loop (trackers : List σ) :
    (connectEach connect).from trackers =
      ((connectLoop connect 1 0 trackers).1.map fun reached =>
          (if reached.1 = 1 then ExitCode.success else .failure, reached.2),
        (connectLoop connect 1 0 trackers).2) := by
  rw [connectLoop_eq, connectEach, bind_from]
  generalize (runEach connect).from trackers = called
  rcases called with ⟨answer, finals⟩
  cases answer with
  | error stop => rfl
  | ok statuses =>
      simp only [Except.map, Nat.zero_add]
      split
      · rfl
      · rfl

/-- A flag that is set stays set. -/
theorem set_or_value (status : ExitCode) : 1 ||| status.value = 1 := by
  cases status with
  | success => rfl
  | failure => rfl

theorem connectLoop_returns {trackers : List σ}
    (returns : ∀ tracker ∈ trackers, ConnectReturns connect tracker)
    (connectedTrackers : Nat) :
    (connectLoop connect 1 connectedTrackers trackers).1 =
      .ok (1, connectedTrackers + trackers.countP (connects connect)) := by
  induction trackers generalizing connectedTrackers with
  | nil =>
      rfl
  | cons tracker rest inductionHypothesis =>
      rcases returns tracker List.mem_cons_self with ⟨status, answered⟩
      have others := inductionHypothesis
        fun other member => returns other (List.mem_cons_of_mem tracker member)
      have called : connect.from tracker =
          (.ok status, (connect.from tracker).2) :=
        Prod.ext answered rfl
      rw [connectLoop, called]
      simp only [set_or_value, others, List.countP_cons, connects, answered]
      cases status with
      | success => simp [Nat.add_assoc, Nat.add_comm 1]
      | failure => simp

/-- What `Torrent_connect` comes to. -/
theorem connectEach_returns {trackers : List σ}
    (returns : ∀ tracker ∈ trackers, ConnectReturns connect tracker) :
    ((connectEach connect).from trackers).1 =
      .ok (.success, trackers.countP (connects connect)) := by
  rw [connectEach_loop, connectLoop_returns returns, Nat.zero_add]
  rfl

end Loop

/-- `connected_trackers` is the number of trackers that are connected, and
the call fails if and only if there are none. -/
structure ConnectsExactly {σ : Type} (connect : Prog σ ExitCode)
    (trackers : List σ) (code : ExitCode) (connectedTrackers : Nat) :
    Prop where
  counts : connectedTrackers = trackers.countP (connects connect)
  fails : code = .failure ↔ connectedTrackers = 0

/-- This is so if and only if some tracker is connected. -/
theorem connectEach_exact_iff {σ : Type} {connect : Prog σ ExitCode}
    {trackers : List σ}
    (returns : ∀ tracker ∈ trackers, ConnectReturns connect tracker) :
    (∃ code connectedTrackers,
      ((connectEach connect).from trackers).1 =
        .ok (code, connectedTrackers) ∧
      ConnectsExactly connect trackers code connectedTrackers) ↔
    ∃ tracker ∈ trackers, connects connect tracker := by
  have reached := connectEach_returns returns
  constructor
  · intro reaches
    rcases reaches with ⟨code, connectedTrackers, ran, exactly⟩
    cases reached.symm.trans ran
    have some : trackers.countP (connects connect) ≠ 0 := by
      intro none
      cases exactly.fails.mpr none
    exact List.countP_pos_iff.mp (Nat.pos_of_ne_zero some)
  · intro some
    refine ⟨_, _, reached, rfl, ?_⟩
    have positive := List.countP_pos_iff.mpr some
    constructor
    · intro failed
      cases failed
    · intro none
      omega

/-- Two trackers, of which the second one is connected. -/
theorem connectEach_exact_second :
    ∃ code connectedTrackers,
      ((connectEach (getState : Prog ExitCode ExitCode)).from
        [.failure, .success]).1 = .ok (code, connectedTrackers) ∧
      ConnectsExactly getState [.failure, .success] code
        connectedTrackers :=
  (connectEach_exact_iff fun _ _ => ⟨_, rfl⟩).mpr
    ⟨.success, by decide, by decide⟩

/-- Without a tracker the call succeeds. -/
theorem connectEach_empty :
    ¬ ∃ code connectedTrackers,
      ((connectEach (getState : Prog ExitCode ExitCode)).from []).1 =
        .ok (code, connectedTrackers) ∧
      ConnectsExactly getState [] code connectedTrackers := by
  intro reaches
  rcases reaches with ⟨code, connectedTrackers, ran, exactly⟩
  cases ran
  cases exactly.fails.mpr rfl

end UvgTorrent
