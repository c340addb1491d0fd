import Mathlib.Data.List.Nodup
import UvgTorrent.DataStructures.LinkedlistMemory
import UvgTorrent.Library.JobLedger
import UvgTorrent.Library.Transition

/-!
# The thread pool

Each section under the mutex is one step, and so is each execution of a job.
A job is known by the node that `Linkedlist_append` copied it into; addresses
are not used twice here, so a node stands for one call of
`Thread_Pool_add_job`.
-/

namespace UvgTorrent.InMemory

open CProgram LinkedChain JobLedger Transition

/-- Where a thread is in `Thread_run`. -/
inductive ThreadState where
  | testing
  | popping
  | holding (node : Nat)
  | exited
  deriving DecidableEq, Repr

/-- Where `Thread_Pool_destroy` is. -/
inductive DestroyState (threads : Nat) where
  | notCalled
  | stopping (index : Nat)
  | waiting (thread : Fin threads)
  | finished
  deriving DecidableEq, Repr

/-- The pool, and a record of what happened to each job. -/
structure ThreadPool (threads : Nat) where
  memory : Memory
  jobs : Linkedlist
  running : Fin threads → Bool
  thread : Fin threads → ThreadState
  destroy : DestroyState threads
  added : List (Nat × List UInt8)
  taken : List (Fin threads × Nat × List UInt8)
  executed : List (Fin threads × Nat × List UInt8)
  discarded : List (Nat × List UInt8)

variable {threads : Nat}

/-- `Thread_Pool_init`, with its threads started. -/
def threadPoolNew (threads : Nat) (grants : Stream' Bool) :
    ThreadPool threads where
  memory := .empty grants
  jobs := linkedlistNew
  running := fun _ => true
  thread := fun _ => .testing
  destroy := .notCalled
  added := []
  taken := []
  executed := []
  discarded := []

/-- The job that a node holds. -/
def jobAt (memory : Memory) (node : Nat) : List UInt8 :=
  match memory.node node with
  | some found => (found.value.getD []).take found.size
  | none => []

def ThreadPool.setThread (pool : ThreadPool threads)
    (thread : Fin threads) (state : ThreadState) : ThreadPool threads :=
  { pool with
    thread := fun other =>
      if other = thread then state else pool.thread other }

/-- `Thread_Pool_add_job`, which does not look at the result of the
append. -/
def threadPoolAddJob (pool : ThreadPool threads) (job : List UInt8) :
    Option (ThreadPool threads) :=
  match pool.destroy with
  | .notCalled =>
      match (linkedlistAppend pool.jobs job).from pool.memory with
      | (.ok (.success, jobs), memory) =>
          some { pool with
            memory := memory
            jobs := jobs
            added := pool.added ++ [(pool.memory.fresh, job)] }
      | (.ok (.failure, jobs), memory) =>
          some { pool with
            memory := memory
            jobs := jobs }
      | (.error _, _) => none
  | _ => none

/-- One step of `Thread_run`. -/
def threadRun (pool : ThreadPool threads) (thread : Fin threads) :
    Option (ThreadPool threads) :=
  match pool.thread thread with
  | .testing =>
      some (pool.setThread thread
        (if pool.running thread then .popping else .exited))
  | .popping =>
      match (linkedlistPop pool.jobs).from pool.memory with
      | (.ok (none, jobs), memory) =>
          some ({ pool with
            memory := memory
            jobs := jobs }.setThread thread .testing)
      | (.ok (some node, jobs), memory) =>
          some ({ pool with
            memory := memory
            jobs := jobs
            taken := pool.taken ++
              [(thread, node, jobAt memory node)] }.setThread thread
                (.holding node))
      | (.error _, _) => none
  | .holding node =>
      some ({ pool with
        memory := pool.memory.release node
        executed := pool.executed ++
          [(thread, node, jobAt pool.memory node)] }.setThread thread .testing)
  | .exited => none

/-- The loop that destroys the jobs left in the list. -/
def discardJobs : Nat → Option Nat → Prog Memory (List (Nat × List UInt8))
  | _, none => pure []
  | 0, some _ => liftExec (.error .unfinished)
  | depth + 1, some address => do
      let node ← derefNode (some address)
      match node.value with
      | some block =>
          storeNode (some address) fun node => { node with value := none }
          let rest ← discardJobs depth node.next
          pure ((address, block.take node.size) :: rest)
      | none => discardJobs depth node.next

/-- One step of `Thread_Pool_destroy`.  It stops one thread after another
and waits for each to exit before it looks at the jobs. -/
def threadPoolDestroy (pool : ThreadPool threads) (depth : Nat) :
    Option (ThreadPool threads) :=
  match pool.destroy with
  | .notCalled => some { pool with destroy := .stopping 0 }
  | .stopping index =>
      if inside : index < threads then
        let thread : Fin threads := ⟨index, inside⟩
        some { pool with
          running := fun other =>
            if other = thread then false else pool.running other
          destroy := .waiting thread }
      else
        match (discardJobs depth pool.jobs.head).from pool.memory with
        | (.ok jobs, memory) =>
            some { pool with
              memory := memory
              discarded := pool.discarded ++ jobs
              destroy := .finished }
        | (.error _, _) => none
  | .waiting thread =>
      if pool.thread thread = .exited then
        some { pool with destroy := .stopping (thread + 1) }
      else
        none
  | .finished => none

/-- Who takes the next step. -/
inductive PoolAction (threads : Nat) where
  | addJob (job : List UInt8)
  | run (thread : Fin threads)
  | destroy (depth : Nat)
  deriving DecidableEq, Repr

def threadPoolStep (pool : ThreadPool threads) :
    PoolAction threads → Option (ThreadPool threads)
  | .addJob job => threadPoolAddJob pool job
  | .run thread => threadRun pool thread
  | .destroy depth => threadPoolDestroy pool depth

/-! ## The invariant -/

/-- The accounts of a pool, given the jobs in the list and the jobs that the
threads hold. -/
def ledgerOf (pool : ThreadPool threads) (queue : List (Nat × List UInt8))
    (held : Fin threads → Option (Nat × List UInt8)) :
    Ledger (Fin threads) (Nat × List UInt8) :=
  ⟨pool.added, queue, pool.taken, held, pool.executed, pool.discarded⟩

/-- The threads that are known to have exited. -/
def Stopped (thread : Fin threads) : DestroyState threads → Prop
  | .notCalled => False
  | .stopping index => thread.val < index
  | .waiting other => thread < other
  | .finished => True

/-- What is known of a pool at any time. -/
structure Accounts (pool : ThreadPool threads)
    (queue : List (Nat × List UInt8))
    (held : Fin threads → Option (Nat × List UInt8)) : Prop where
  balanced : Balanced (ledgerOf pool queue held)
  distinct : (pool.added.map Prod.fst).Nodup
  old : ∀ job ∈ pool.added, job.1 < pool.memory.fresh
  queued : pool.destroy ≠ .finished →
    Linked pool.memory pool.jobs queue ∧ pool.discarded = []
  drained : pool.destroy = .finished → queue = []
  idle : ∀ thread, (∀ node, pool.thread thread ≠ .holding node) →
    held thread = none
  busy : ∀ thread node, pool.thread thread = .holding node →
    ∃ job, held thread = some (node, job) ∧
      pool.memory.node node = some (.holding job)
  stopped : ∀ thread, Stopped thread pool.destroy →
    pool.thread thread = .exited

theorem threadPoolNew_accounts (threads : Nat) (grants : Stream' Bool) :
    Accounts (threadPoolNew threads grants) [] fun _ => none where
  balanced := blank_balanced
  distinct := List.nodup_nil
  old := fun _ member => absurd member List.not_mem_nil
  queued := fun _ => ⟨(linkedlistNew_holds _).toLinked, rfl⟩
  drained := fun finished => by cases finished
  idle := fun _ _ => rfl
  busy := fun _ _ holding => by cases holding
  stopped := fun _ known => known.elim

section Accounts

variable {pool : ThreadPool threads} {queue : List (Nat × List UInt8)}
  {held : Fin threads → Option (Nat × List UInt8)}

theorem jobAt_holding {memory : Memory} {node : Nat} {job : List UInt8}
    (present : memory.node node = some (.holding job)) :
    jobAt memory node = job := by
  simp [jobAt, present, Linkednode.holding]

theorem Accounts.nodes_nodup (accounts : Accounts pool queue held) :
    ((pool.taken.map Prod.snd).map Prod.fst ++ queue.map Prod.fst).Nodup := by
  have distinct := accounts.distinct
  have ordered : pool.added = _ := accounts.balanced.ordered
  rw [ordered, List.map_append, List.map_append] at distinct
  exact (List.nodup_append.mp distinct).1

/-- A node that a thread holds has left the list. -/
theorem Accounts.held_apart (accounts : Accounts pool queue held)
    {thread : Fin threads} {node : Nat}
    (holding : pool.thread thread = .holding node) :
    node ∉ queue.map Prod.fst := by
  rcases accounts.busy thread node holding with ⟨job, holds, _⟩
  have taken : (thread, node, job) ∈ pool.taken :=
    accounts.balanced.held_taken holds
  intro queued
  have inTaken : node ∈ (pool.taken.map Prod.snd).map Prod.fst :=
    List.mem_map_of_mem (f := Prod.fst) (List.mem_map_of_mem taken)
  exact (List.nodup_append.mp accounts.nodes_nodup).2.2 _ inTaken _ queued rfl

/-- Two threads do not hold one node. -/
theorem Accounts.held_distinct (accounts : Accounts pool queue held)
    {thread other : Fin threads} {node : Nat}
    (holding : pool.thread thread = .holding node)
    (same : pool.thread other = .holding node) : thread = other := by
  rcases accounts.busy thread node holding with ⟨job, holds, _⟩
  rcases accounts.busy other node same with ⟨otherJob, otherHolds, _⟩
  have first : (thread, node, job) ∈ pool.taken :=
    accounts.balanced.held_taken holds
  have second : (other, node, otherJob) ∈ pool.taken :=
    accounts.balanced.held_taken otherHolds
  have distinct := (List.nodup_append.mp accounts.nodes_nodup).1
  rw [List.map_map] at distinct
  exact congrArg Prod.fst
    (List.inj_on_of_nodup_map distinct first second rfl)

/-! ## The steps -/

/-- The state of one thread changes, and the accounts with it. -/
theorem threadPoolAddJob_accounts (accounts : Accounts pool queue held)
    {job : List UInt8} {after : ThreadPool threads}
    (stepped : threadPoolAddJob pool job = some after) :
    ∃ longer, Accounts after longer held := by
  cases calling : pool.destroy with
  | notCalled =>
      have isOpen : pool.destroy ≠ .finished := by
        rw [calling]
        exact nofun
      rcases accounts.queued isOpen with ⟨linked, noneDiscarded⟩
      rcases linkedlistAppend_from linked job with
        ⟨code, jobs, memory, ran, appends⟩
      have apart : ∀ thread node, pool.thread thread = .holding node →
          memory.node node = pool.memory.node node := by
        intro thread node holding
        rcases accounts.busy thread node holding with ⟨_, _, present⟩
        exact appends.kept node (Nat.ne_of_lt (Memory.lt_fresh present))
          (accounts.held_apart holding)
      have busy : ∀ thread node, pool.thread thread = .holding node →
          ∃ job, held thread = some (node, job) ∧
            memory.node node = some (.holding job) := by
        intro thread node holding
        rw [apart thread node holding]
        exact accounts.busy thread node holding
      have older : ∀ job ∈ pool.added, job.1 < memory.fresh :=
        fun job member => Nat.lt_of_lt_of_le (accounts.old job member)
          appends.grew
      simp only [threadPoolAddJob, calling, ran] at stepped
      rcases appends.outcome with ⟨rfl, rfl, still⟩ | ⟨rfl, _, fewer, longer⟩
      · cases stepped
        exact ⟨queue, accounts.balanced, accounts.distinct, older,
          fun _ => ⟨still, noneDiscarded⟩, nofun, accounts.idle, busy,
          fun _ known => known.elim⟩
      · cases stepped
        refine ⟨queue ++ [(pool.memory.fresh, job)],
          accounts.balanced.add noneDiscarded _, ?_, ?_,
          fun _ => ⟨longer, noneDiscarded⟩, nofun, accounts.idle, busy,
          fun _ known => known.elim⟩
        · rw [List.map_append, List.nodup_append]
          refine ⟨accounts.distinct, List.nodup_singleton _, ?_⟩
          intro node member other isFresh same
          rcases List.mem_map.mp member with ⟨old, oldMember, rfl⟩
          rw [List.mem_singleton.mp isFresh] at same
          exact Nat.ne_of_lt (accounts.old old oldMember) same
        · intro old member
          rcases List.mem_append.mp member with before | isNew
          · exact older old before
          · cases List.mem_singleton.mp isNew
            exact fewer
  | stopping index => simp [threadPoolAddJob, calling] at stepped
  | waiting thread => simp [threadPoolAddJob, calling] at stepped
  | finished => simp [threadPoolAddJob, calling] at stepped

/-! A step of `Thread_run` changes the state of one thread. -/

/-- A thread that still takes steps is not among the stopped ones. -/
theorem stopped_after (accounts : Accounts pool queue held)
    {thread : Fin threads} (alive : pool.thread thread ≠ .exited)
    (state : ThreadState) :
    ∀ other, Stopped other pool.destroy →
      (if other = thread then state else pool.thread other) = .exited := by
  intro other known
  have exited := accounts.stopped other known
  have different : other ≠ thread := by
    rintro rfl
    exact alive exited
  rw [if_neg different]
  exact exited

theorem idle_after (accounts : Accounts pool queue held)
    {thread : Fin threads} {state : ThreadState}
    {others : Fin threads → Option (Nat × List UInt8)}
    (kept : ∀ other, other ≠ thread → others other = held other)
    (mine : (∀ node, state ≠ .holding node) → others thread = none) :
    ∀ other, (∀ node,
      (if other = thread then state else pool.thread other) ≠
        .holding node) → others other = none := by
  intro other free
  by_cases same : other = thread
  · simp only [same, if_true] at free
    rw [same]
    exact mine free
  · simp only [same, if_false] at free
    rw [kept other same]
    exact accounts.idle other free

theorem busy_after (accounts : Accounts pool queue held)
    {thread : Fin threads} {state : ThreadState} {memory : Memory}
    {others : Fin threads → Option (Nat × List UInt8)}
    (kept : ∀ other, other ≠ thread → others other = held other)
    (intact : ∀ other node, other ≠ thread →
      pool.thread other = .holding node →
      memory.node node = pool.memory.node node)
    (mine : ∀ node, state = .holding node →
      ∃ job, others thread = some (node, job) ∧
        memory.node node = some (.holding job)) :
    ∀ other node,
      (if other = thread then state else pool.thread other) =
        .holding node →
      ∃ job, others other = some (node, job) ∧
        memory.node node = some (.holding job) := by
  intro other node holding
  by_cases same : other = thread
  · rw [if_pos same] at holding
    rw [same]
    exact mine node holding
  · rw [if_neg same] at holding
    rw [kept other same, intact other node same holding]
    exact accounts.busy other node holding

theorem threadRun_testing (accounts : Accounts pool queue held)
    {thread : Fin threads} (testing : pool.thread thread = .testing)
    {after : ThreadPool threads}
    (stepped : threadRun pool thread = some after) :
    Accounts after queue held := by
  have alive : pool.thread thread ≠ .exited := by
    rw [testing]
    exact nofun
  have isFree : held thread = none := by
    apply accounts.idle
    rw [testing]
    exact nofun
  simp only [threadRun, testing] at stepped
  cases stepped
  refine ⟨accounts.balanced, accounts.distinct, accounts.old,
    accounts.queued, accounts.drained,
    idle_after accounts (fun _ _ => rfl) fun _ => isFree,
    busy_after accounts (fun _ _ => rfl) (fun _ _ _ _ => rfl) ?_,
    stopped_after accounts alive _⟩
  intro node holding
  split at holding <;> cases holding

/-- While a thread has not exited, the list of jobs is in place. -/
theorem Accounts.queued_alive (accounts : Accounts pool queue held)
    {thread : Fin threads} (alive : pool.thread thread ≠ .exited) :
    pool.destroy ≠ .finished := by
  intro finished
  apply alive
  apply accounts.stopped
  rw [finished]
  trivial

theorem threadRun_popping (accounts : Accounts pool queue held)
    {thread : Fin threads} (popping : pool.thread thread = .popping)
    {after : ThreadPool threads}
    (stepped : threadRun pool thread = some after) :
    ∃ rest others, Accounts after rest others := by
  have alive : pool.thread thread ≠ .exited := by
    rw [popping]
    exact nofun
  have isFree : held thread = none := by
    apply accounts.idle
    rw [popping]
    exact nofun
  rcases accounts.queued (accounts.queued_alive alive) with
    ⟨linked, noneDiscarded⟩
  cases queue with
  | nil =>
      have ran : (linkedlistPop pool.jobs).from pool.memory =
          (.ok (none, pool.jobs), pool.memory) :=
        linkedlistPop_empty (linked.empty_iff.mpr rfl)
      simp only [threadRun, popping, ran] at stepped
      cases stepped
      exact ⟨[], held, accounts.balanced, accounts.distinct, accounts.old,
        accounts.queued, accounts.drained,
        idle_after accounts (fun _ _ => rfl) fun _ => isFree,
        busy_after accounts (fun _ _ => rfl) (fun _ _ _ _ => rfl) nofun,
        stopped_after accounts alive _⟩
  | cons first rest =>
      rcases linkedlistPop_from linked with
        ⟨jobs, memory, ran, shorter, -, fresh, -, intact, kept⟩
      have read : jobAt memory first.1 = first.2 := jobAt_holding intact
      simp only [threadRun, popping, ran, read] at stepped
      cases stepped
      refine ⟨rest, fun other =>
          if other = thread then some first else held other,
        accounts.balanced.take rfl isFree, accounts.distinct, ?_,
        fun _ => ⟨shorter, noneDiscarded⟩, ?_,
        idle_after accounts (fun _ different => if_neg different) ?_,
        busy_after accounts (fun _ different => if_neg different) ?_ ?_,
        stopped_after accounts alive _⟩
      · intro job member
        exact Nat.lt_of_lt_of_eq (accounts.old job member) fresh.symm
      · intro finished
        cases accounts.drained finished
      · intro free
        exact absurd rfl (free first.1)
      · intro other node _ holding
        apply kept
        rintro rfl
        exact accounts.held_apart holding (.head _)
      · intro node holding
        cases holding
        exact ⟨first.2, if_pos rfl, intact⟩

theorem threadRun_holding (accounts : Accounts pool queue held)
    {thread : Fin threads} {node : Nat}
    (holding : pool.thread thread = .holding node)
    {after : ThreadPool threads}
    (stepped : threadRun pool thread = some after) :
    ∃ others, Accounts after queue others := by
  have alive : pool.thread thread ≠ .exited := by
    rw [holding]
    exact nofun
  have isOpen := accounts.queued_alive alive
  rcases accounts.busy thread node holding with ⟨job, holds, present⟩
  have read : jobAt pool.memory node = job := jobAt_holding present
  simp only [threadRun, holding, read] at stepped
  cases stepped
  refine ⟨fun other => if other = thread then none else held other,
    accounts.balanced.execute holds, accounts.distinct, accounts.old, ?_,
    accounts.drained,
    idle_after accounts (fun _ different => if_neg different) fun _ =>
      if_pos rfl,
    busy_after accounts (fun _ different => if_neg different) ?_ nofun,
    stopped_after accounts alive _⟩
  · intro _
    rcases accounts.queued isOpen with ⟨linked, noneDiscarded⟩
    refine ⟨linked.frame ?_, noneDiscarded⟩
    intro waiting member
    apply if_neg
    intro same
    exact accounts.held_apart holding (same ▸ List.mem_map_of_mem member)
  · intro other second different busy
    apply if_neg
    rintro rfl
    exact different (accounts.held_distinct busy holding)

theorem threadRun_accounts (accounts : Accounts pool queue held)
    {thread : Fin threads} {after : ThreadPool threads}
    (stepped : threadRun pool thread = some after) :
    ∃ rest others, Accounts after rest others := by
  cases running : pool.thread thread with
  | testing =>
      exact ⟨queue, held, threadRun_testing accounts running stepped⟩
  | popping =>
      exact threadRun_popping accounts running stepped
  | holding node =>
      exact ⟨queue, threadRun_holding accounts running stepped⟩
  | exited =>
      simp [threadRun, running] at stepped

/-- The loop over the jobs meets the nodes of the list. -/
theorem discardJobs_from {memory after : Memory} {first : Option Nat}
    {nodes jobs : List (Nat × List UInt8)} {depth : Nat}
    (chain : Chain memory.load first (nodes.map cell))
    (ran : (discardJobs depth first).from memory = (.ok jobs, after)) :
    jobs = nodes ∧ after.fresh = memory.fresh := by
  induction nodes generalizing memory first jobs depth with
  | nil =>
      cases chain
      rw [discardJobs] at ran
      cases ran
      exact ⟨rfl, rfl⟩
  | cons node nodes inductionHypothesis =>
      have distinct := chain.nodup
      rcases chain with ⟨rfl, next, loaded, further⟩
      rcases Option.map_eq_some_iff.mp loaded with
        ⟨⟨block, size, following⟩, present, fields⟩
      cases fields
      cases depth with
      | zero =>
          cases ran
      | succ depth =>
          rw [discardJobs, bind_from_ok (derefNode_from present)] at ran
          simp only [bind_from_ok (storeNode_from present _)] at ran
          rw [bind_from] at ran
          split at ran
          · rename_i rest final others
            cases ran
            have apart : Chain (memory.write node.1 fun node =>
                { node with value := none }).load following
                  (nodes.map cell) := by
              apply further.frame
              intro later member
              have different : later.1 ≠ node.1 := by
                intro same
                exact (List.nodup_cons.mp distinct).1
                  (same ▸ List.mem_map_of_mem member)
              exact Memory.load_congr (Memory.write_other different _)
            rcases inductionHypothesis apart others with ⟨rfl, fresh⟩
            rw [List.take_left]
            exact ⟨rfl, fresh⟩
          · cases ran

theorem threadPoolDestroy_accounts (accounts : Accounts pool queue held)
    {depth : Nat} {after : ThreadPool threads}
    (stepped : threadPoolDestroy pool depth = some after) :
    ∃ rest, Accounts after rest held := by
  cases calling : pool.destroy with
  | notCalled =>
      have queued := accounts.queued (by rw [calling]; exact nofun)
      simp only [threadPoolDestroy, calling] at stepped
      cases stepped
      exact ⟨queue, accounts.balanced, accounts.distinct, accounts.old,
        fun _ => queued, nofun, accounts.idle, accounts.busy,
        fun thread known => absurd known (Nat.not_lt_zero _)⟩
  | stopping index =>
      have queued := accounts.queued (by rw [calling]; exact nofun)
      have stopped := accounts.stopped
      rw [calling] at stopped
      simp only [threadPoolDestroy, calling] at stepped
      split at stepped
      · cases stepped
        exact ⟨queue, accounts.balanced, accounts.distinct, accounts.old,
          fun _ => queued, nofun, accounts.idle, accounts.busy,
          fun thread known => stopped thread known⟩
      · rename_i outside
        split at stepped
        · rename_i jobs memory ran
          rcases discardJobs_from queued.1.chain ran with ⟨rfl, fresh⟩
          cases stepped
          have exited : ∀ thread, pool.thread thread = .exited :=
            fun thread => stopped thread
              (Nat.lt_of_lt_of_le thread.isLt (Nat.not_lt.mp outside))
          refine ⟨[], accounts.balanced.discard queued.2, accounts.distinct,
            ?_, fun isOpen => absurd rfl isOpen, fun _ => rfl,
            accounts.idle, ?_, fun thread _ => exited thread⟩
          · intro job member
            exact Nat.lt_of_lt_of_eq (accounts.old job member) fresh.symm
          · intro thread node holding
            rw [exited thread] at holding
            cases holding
        · cases stepped
  | waiting thread =>
      have queued := accounts.queued (by rw [calling]; exact nofun)
      have stopped := accounts.stopped
      rw [calling] at stopped
      simp only [threadPoolDestroy, calling] at stepped
      split at stepped
      · rename_i exited
        cases stepped
        refine ⟨queue, accounts.balanced, accounts.distinct, accounts.old,
          fun _ => queued, nofun, accounts.idle, accounts.busy, ?_⟩
        intro other known
        rcases Nat.lt_or_eq_of_le (Nat.lt_succ_iff.mp known) with
          before | same
        · exact stopped other before
        · rw [Fin.ext same]
          exact exited
      · cases stepped
  | finished =>
      simp [threadPoolDestroy, calling] at stepped

theorem threadPoolStep_accounts (accounts : Accounts pool queue held)
    {action : PoolAction threads} {after : ThreadPool threads}
    (stepped : threadPoolStep pool action = some after) :
    ∃ rest others, Accounts after rest others := by
  cases action with
  | addJob job =>
      rcases threadPoolAddJob_accounts accounts stepped with ⟨longer, kept⟩
      exact ⟨longer, held, kept⟩
  | run thread =>
      exact threadRun_accounts accounts stepped
  | destroy depth =>
      rcases threadPoolDestroy_accounts accounts stepped with ⟨rest, kept⟩
      exact ⟨rest, held, kept⟩

end Accounts

/-! ## Whole runs -/

/-- In every run the jobs are taken in the order they were added, and no job
is executed twice or both executed and discarded.  When the pool has been
destroyed, each job added was executed or discarded. -/
theorem threadPool_settles_each_job {grants : Stream' Bool}
    {actions : List (PoolAction threads)} {pool : ThreadPool threads}
    (ran : run threadPoolStep (threadPoolNew threads grants) actions =
      some pool) :
    pool.taken.map Prod.snd <+: pool.added ∧
    (∀ entry ∈ pool.executed, entry ∈ pool.taken) ∧
    (pool.executed.map Prod.snd ++ pool.discarded).Nodup ∧
    (pool.destroy = .finished → pool.added.Perm
      (pool.executed.map Prod.snd ++ pool.discarded)) := by
  have preserved : ∀ (pool : ThreadPool threads) action after,
      (∃ queue held, Accounts pool queue held) →
      threadPoolStep pool action = some after →
      ∃ queue held, Accounts after queue held := by
    rintro pool action after ⟨queue, held, accounts⟩ stepped
    exact threadPoolStep_accounts accounts stepped
  have start : ∃ queue held,
      Accounts (threadPoolNew threads grants) queue held :=
    ⟨[], _, threadPoolNew_accounts threads grants⟩
  rcases run_preserves preserved start ran with ⟨queue, held, accounts⟩
  have balanced := accounts.balanced
  refine ⟨balanced.taken_prefix, fun entry member =>
    balanced.executed_subperm.subset member,
    balanced.settled_nodup (accounts.distinct.of_map _), ?_⟩
  intro finished
  apply balanced.settled_perm (accounts.drained finished)
  intro thread
  apply accounts.idle
  intro node holding
  have exited := accounts.stopped thread (by rw [finished]; trivial)
  rw [exited] at holding
  cases holding

/-- A run in which one job is executed before the shutdown, one during it,
and one is discarded. -/
def shutdownRun : List (PoolAction 1) :=
  [.addJob [1], .addJob [2], .addJob [3], .run 0, .run 0, .run 0, .run 0,
    .run 0, .destroy 0, .destroy 0, .run 0, .run 0, .destroy 0, .destroy 1]

theorem threadPool_settles_each_job_shutdown :
    ∃ pool, run threadPoolStep (threadPoolNew 1 (Stream'.const true))
        shutdownRun = some pool ∧ pool.discarded = [(2, [3])] ∧
      pool.added.Perm (pool.executed.map Prod.snd ++ pool.discarded) := by
  have reached : (run threadPoolStep
      (threadPoolNew 1 (Stream'.const true)) shutdownRun).map
        (fun pool => (pool.discarded, pool.destroy)) =
      some ([(2, [3])], .finished) := by
    decide +kernel
  rcases Option.map_eq_some_iff.mp reached with ⟨pool, ran, fields⟩
  have discarded := congrArg Prod.fst fields
  have finished := congrArg Prod.snd fields
  exact ⟨pool, ran, discarded,
    (threadPool_settles_each_job ran).2.2.2 finished⟩

end UvgTorrent.InMemory
