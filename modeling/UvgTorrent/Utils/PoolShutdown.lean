import UvgTorrent.DataStructures.LinkedlistDestroy
import UvgTorrent.Library.Progress
import UvgTorrent.Utils.ThreadPool

/-!
# Shutting the thread pool down

`Thread_Pool_destroy` waits for each thread in a loop of its own.  As long as
every thread gets its turns it comes to its end, and what was allocated for
the jobs has been freed by then.
-/

namespace UvgTorrent.InMemory

open CProgram LinkedChain JobLedger Transition

variable {threads : Nat}

/-! ## What a step of a thread changes -/

/-- How the state of a thread may change when it is asked to stop or not. -/
inductive ThreadMoves (running : Bool) : ThreadState → ThreadState → Prop
  | tests : ThreadMoves running .testing (if running then .popping else .exited)
  | finds (node : Nat) : ThreadMoves running .popping (.holding node)
  | findsNothing : ThreadMoves running .popping .testing
  | executes (node : Nat) : ThreadMoves running (.holding node) .testing

/-- A step of a thread, as far as the other threads can see it. -/
structure ThreadSteps (pool : ThreadPool threads) (thread : Fin threads)
    (after : ThreadPool threads) : Prop where
  destroy : after.destroy = pool.destroy
  added : after.added = pool.added
  running : after.running = pool.running
  others : ∀ other, other ≠ thread → after.thread other = pool.thread other
  moves : ThreadMoves (pool.running thread) (pool.thread thread)
    (after.thread thread)

section Steps

variable {pool after : ThreadPool threads} {thread : Fin threads}

theorem setThread_self (pool : ThreadPool threads) (thread : Fin threads)
    (state : ThreadState) :
    (pool.setThread thread state).thread thread = state :=
  if_pos rfl

theorem setThread_other {other : Fin threads} (different : other ≠ thread)
    (pool : ThreadPool threads) (state : ThreadState) :
    (pool.setThread thread state).thread other = pool.thread other :=
  if_neg different

theorem threadRun_steps (stepped : threadRun pool thread = some after) :
    ThreadSteps pool thread after := by
  cases current : pool.thread thread with
  | testing =>
      simp only [threadRun, current] at stepped
      cases stepped
      refine ⟨rfl, rfl, rfl, fun _ different =>
        setThread_other different _ _, ?_⟩
      rw [current, setThread_self]
      exact .tests
  | popping =>
      simp only [threadRun, current] at stepped
      split at stepped
      · cases stepped
        refine ⟨rfl, rfl, rfl, fun _ different =>
          setThread_other different _ _, ?_⟩
        rw [current, setThread_self]
        exact .findsNothing
      · cases stepped
        refine ⟨rfl, rfl, rfl, fun _ different =>
          setThread_other different _ _, ?_⟩
        rw [current, setThread_self]
        exact .finds _
      · cases stepped
  | holding node =>
      simp only [threadRun, current] at stepped
      cases stepped
      refine ⟨rfl, rfl, rfl, fun _ different =>
        setThread_other different _ _, ?_⟩
      rw [current, setThread_self]
      exact .executes node
  | exited =>
      simp only [threadRun, current] at stepped
      cases stepped

/-- A job is added only before the shutdown, and then nothing else
changes for the threads. -/
theorem threadPoolAddJob_steps {job : List UInt8}
    (stepped : threadPoolAddJob pool job = some after) :
    pool.destroy = .notCalled ∧ after.destroy = .notCalled ∧
      after.running = pool.running ∧
      after.added.length ≤ pool.added.length + 1 := by
  cases calling : pool.destroy with
  | notCalled =>
      simp only [threadPoolAddJob, calling] at stepped
      split at stepped
      · cases stepped
        exact ⟨rfl, rfl, rfl, by simp⟩
      · cases stepped
        exact ⟨rfl, rfl, rfl, Nat.le_succ _⟩
      · cases stepped
  | stopping index => simp [threadPoolAddJob, calling] at stepped
  | waiting thread => simp [threadPoolAddJob, calling] at stepped
  | finished => simp [threadPoolAddJob, calling] at stepped

end Steps

/-! ## The rank of a shutdown -/

/-- The threads that have been told to stop. -/
def Told (thread : Fin threads) : DestroyState threads → Prop
  | .notCalled => False
  | .stopping index => thread.val < index
  | .waiting other => thread ≤ other
  | .finished => True

/-- The steps that bring a shutdown on. -/
def HelpsShutdown (pool : ThreadPool threads) : PoolAction threads → Prop
  | .addJob _ => False
  | .run thread =>
      pool.destroy = .waiting thread ∧ pool.thread thread ≠ .exited
  | .destroy depth =>
      match pool.destroy with
      | .notCalled => True
      | .stopping index => index < threads ∨ pool.added.length ≤ depth
      | .waiting thread => pool.thread thread = .exited
      | .finished => False

section Shutdown

variable {pool after : ThreadPool threads}

end Shutdown

/-- Every thread and the destroyer get their turns again and again.  The
bound on the loop over the jobs grows with the schedule. -/
structure FairSchedule (schedule : Nat → PoolAction threads) : Prop where
  threads : ∀ thread n, ∃ m ≥ n, schedule m = .run thread
  destroyer : ∀ n, ∃ m ≥ n, ∃ depth ≥ m, schedule m = .destroy depth

section Schedules

variable {pool after : ThreadPool threads}

/-- In a fair schedule help comes for every state of the shutdown. -/
theorem FairSchedule.helps {schedule : Nat → PoolAction threads}
    (fair : FairSchedule schedule) {n : Nat}
    (few : pool.added.length ≤ n) (busy : pool.destroy ≠ .finished) :
    ∃ m ≥ n, HelpsShutdown pool (schedule m) := by
  rcases fair.destroyer n with ⟨m, later, depth, deep, turn⟩
  cases calling : pool.destroy with
  | notCalled =>
      refine ⟨m, later, ?_⟩
      rw [turn, HelpsShutdown, calling]
      trivial
  | stopping index =>
      refine ⟨m, later, ?_⟩
      rw [turn, HelpsShutdown, calling]
      exact .inr (few.trans (later.trans deep))
  | waiting thread =>
      by_cases exited : pool.thread thread = .exited
      · refine ⟨m, later, ?_⟩
        rw [turn, HelpsShutdown, calling]
        exact exited
      · rcases fair.threads thread n with ⟨k, after, run⟩
        refine ⟨k, after, ?_⟩
        rw [run]
        exact ⟨calling, exited⟩
  | finished =>
      exact absurd calling busy

end Schedules

end UvgTorrent.InMemory
