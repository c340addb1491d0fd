import UvgTorrent.Utils.PoolShutdown

/-!
# The memory of the thread pool

A node that was allocated for a job is in the list or with the thread that
took it.  Behind a shutdown the list is all there is, and destroying it frees
the rest.
-/

namespace UvgTorrent.InMemory

open CProgram LinkedChain JobLedger Transition

variable {threads : Nat}

/-- Every node is at one of the addresses or with a thread. -/
def Covered (pool : ThreadPool threads) (addresses : List Nat) : Prop :=
  ∀ address, pool.memory.node address ≠ none →
    address ∈ addresses ∨ ∃ thread, pool.thread thread = .holding address

/-- Every node is in the list of jobs or with a thread. -/
def NothingLost (pool : ThreadPool threads) : Prop :=
  ∃ cells, Chain pool.memory.load pool.jobs.head cells ∧
    Covered pool (cells.map Prod.fst)

section Steps

variable {pool after : ThreadPool threads}
  {queue : List (Nat × List UInt8)}
  {held : Fin threads → Option (Nat × List UInt8)}

/-- The list of jobs is the queue of the accounts. -/
theorem NothingLost.covered (lost : NothingLost pool)
    (linked : Linked pool.memory pool.jobs queue) :
    Covered pool (queue.map Prod.fst) := by
  rcases lost with ⟨cells, chain, covered⟩
  rw [chain.unique linked.chain, cells_addresses] at covered
  exact covered

theorem Linked.nothingLost
    (linked : Linked pool.memory pool.jobs queue)
    (covered : Covered pool (queue.map Prod.fst)) : NothingLost pool := by
  refine ⟨queue.map cell, linked.chain, ?_⟩
  rw [cells_addresses]
  exact covered

/-- A thread keeps the node it holds while another thread takes a step. -/
theorem ThreadSteps.holding {thread other : Fin threads} {node : Nat}
    (steps : ThreadSteps pool thread after)
    (holding : pool.thread other = .holding node)
    (notMine : pool.thread thread ≠ .holding node) :
    after.thread other = .holding node := by
  refine (steps.others other ?_).trans holding
  rintro rfl
  exact notMine holding

theorem threadPoolAddJob_nothingLost (accounts : Accounts pool queue held)
    (lost : NothingLost pool) {job : List UInt8}
    (stepped : threadPoolAddJob pool job = some after) :
    NothingLost after := by
  have isOpen := (threadPoolAddJob_steps stepped).1
  have linked := (accounts.queued (by rw [isOpen]; exact nofun)).1
  have covered := lost.covered linked
  rcases linkedlistAppend_from linked job with
    ⟨code, jobs, memory, ran, appends⟩
  have elsewhere : ∀ address, address ≠ pool.memory.fresh →
      memory.node address ≠ none → address ∈ queue.map Prod.fst ∨
        ∃ thread, pool.thread thread = .holding address := by
    intro address old present
    by_cases queued : address ∈ queue.map Prod.fst
    · exact .inl queued
    · rw [appends.kept address old queued] at present
      exact covered address present
  simp only [threadPoolAddJob, isOpen, ran] at stepped
  rcases appends.outcome with ⟨rfl, rfl, still⟩ | ⟨rfl, -, -, longer⟩
  · cases stepped
    apply still.nothingLost
    intro address present
    apply elsewhere address _ present
    rintro rfl
    exact present (linkedlistAppend_refused (linked_iff.mp linked) ran)
  · cases stepped
    apply longer.nothingLost
    intro address present
    rw [List.map_append, List.mem_append]
    by_cases isNew : address = pool.memory.fresh
    · exact .inl (.inr (isNew ▸ List.mem_singleton_self _))
    · exact (elsewhere address isNew present).imp_left .inl

theorem threadRun_nothingLost (accounts : Accounts pool queue held)
    (lost : NothingLost pool) {thread : Fin threads}
    (stepped : threadRun pool thread = some after) : NothingLost after := by
  have steps := threadRun_steps stepped
  cases current : pool.thread thread with
  | testing =>
      simp only [threadRun, current] at stepped
      cases stepped
      rcases lost with ⟨cells, chain, covered⟩
      refine ⟨cells, chain, fun address present => ?_⟩
      rcases covered address present with queued | ⟨other, holding⟩
      · exact .inl queued
      · exact .inr ⟨other, steps.holding holding (by simp [current])⟩
  | popping =>
      have alive : pool.thread thread ≠ .exited := by
        simp [current]
      have linked := (accounts.queued (accounts.queued_alive alive)).1
      have covered := lost.covered linked
      have still : ∀ {address} other, pool.thread other = .holding address →
          after.thread other = .holding address := fun other holding =>
        steps.holding holding (by simp [current])
      cases queue with
      | nil =>
          have ran := @linkedlistPop_empty pool.memory _
            (linked.empty_iff.mpr rfl)
          simp only [threadRun, current, ran] at stepped
          cases stepped
          refine ⟨[], linked.chain, fun address present => ?_⟩
          rcases covered address present with queued | ⟨other, holding⟩
          · exact .inl queued
          · exact .inr ⟨other, still other holding⟩
      | cons first rest =>
          rcases linkedlistPop_from linked with
            ⟨jobs, memory, ran, shorter, -, -, -, -, kept⟩
          simp only [threadRun, current, ran] at stepped
          cases stepped
          apply shorter.nothingLost
          intro address present
          by_cases isFirst : address = first.1
          · subst isFirst
            exact .inr ⟨thread, setThread_self _ _ _⟩
          · have before : pool.memory.node address ≠ none :=
              (kept address isFirst) ▸ present
            rcases covered address before with queued | ⟨other, holding⟩
            · rw [List.map_cons, List.mem_cons] at queued
              exact .inl (queued.resolve_left isFirst)
            · exact .inr ⟨other, still other holding⟩
  | holding node =>
      have alive : pool.thread thread ≠ .exited := by
        simp [current]
      have linked := (accounts.queued (accounts.queued_alive alive)).1
      have covered := lost.covered linked
      have apart := accounts.held_apart current
      simp only [threadRun, current] at stepped
      cases stepped
      have kept : Linked (pool.memory.release node) pool.jobs queue := by
        apply linked.frame
        intro waiting member
        apply if_neg
        intro same
        exact apart (same ▸ List.mem_map_of_mem member)
      apply kept.nothingLost
      intro address present
      have different : address ≠ node := by
        rintro rfl
        exact present (if_pos rfl)
      have before : pool.memory.node address ≠ none := by
        intro absent
        exact present ((if_neg different).trans absent)
      rcases covered address before with queued | ⟨other, holding⟩
      · exact .inl queued
      · refine .inr ⟨other, steps.holding holding ?_⟩
        rw [current]
        rintro ⟨⟩
        exact different rfl
  | exited =>
      simp [threadRun, current] at stepped

/-- The loop over the jobs leaves the nodes where they are. -/
theorem discardJobs_chain {memory final : Memory} {first : Option Nat}
    {nodes jobs : List (Nat × List UInt8)} {depth : Nat}
    (chain : Chain memory.load first (nodes.map cell))
    (ran : (discardJobs depth first).from memory = (.ok jobs, final)) :
    Chain final.load first
        (nodes.map fun node => (node.1, none, node.2.length)) ∧
      ∀ other, other ∉ nodes.map Prod.fst →
        final.node other = memory.node other := by
  induction nodes generalizing memory first jobs depth with
  | nil =>
      cases chain
      rw [discardJobs] at ran
      cases ran
      exact ⟨rfl, fun _ _ => rfl⟩
  | cons node nodes inductionHypothesis =>
      have distinct := chain.nodup
      rw [cells_addresses, List.map_cons, List.nodup_cons] at distinct
      rcases chain with ⟨rfl, next, loaded, further⟩
      have present := Memory.node_of_load loaded
      cases depth with
      | zero =>
          cases ran
      | succ depth =>
          rw [discardJobs, bind_from_ok (derefNode_from present)] at ran
          simp only [bind_from_ok (storeNode_from present _)] at ran
          rw [bind_from] at ran
          split at ran
          · rename_i rest reached others
            cases ran
            have apart : Chain (memory.write node.1 fun node =>
                { node with value := none }).load next (nodes.map cell) := by
              apply further.frame
              intro later member
              have different : later.1 ≠ node.1 := by
                intro same
                apply distinct.1
                rw [← cells_addresses, List.mem_map]
                exact ⟨later, member, same⟩
              exact Memory.load_congr (Memory.write_other different _)
            rcases inductionHypothesis apart others with ⟨behind, kept⟩
            have here := (kept node.1 distinct.1).trans
              (Memory.write_self present _)
            refine ⟨.cons (Memory.load_of_node here) behind, ?_⟩
            intro other outside
            rw [List.map_cons, List.mem_cons, not_or] at outside
            rw [kept other outside.2, Memory.write_other outside.1]
          · cases ran

theorem threadPoolDestroy_nothingLost (accounts : Accounts pool queue held)
    (lost : NothingLost pool) {depth : Nat}
    (stepped : threadPoolDestroy pool depth = some after) :
    NothingLost after := by
  cases calling : pool.destroy with
  | notCalled =>
      simp only [threadPoolDestroy, calling] at stepped
      cases stepped
      exact lost
  | stopping index =>
      have linked := (accounts.queued (by simp [calling])).1
      have covered := lost.covered linked
      simp only [threadPoolDestroy, calling] at stepped
      split at stepped
      · cases stepped
        exact lost
      · split at stepped
        · rename_i jobs memory ran
          cases stepped
          rcases discardJobs_chain linked.chain ran with ⟨chain, kept⟩
          refine ⟨_, chain, fun address present => ?_⟩
          rw [List.map_map]
          by_cases queued : address ∈ queue.map Prod.fst
          · exact .inl queued
          · exact covered address ((kept address queued) ▸ present)
        · cases stepped
  | waiting thread =>
      simp only [threadPoolDestroy, calling] at stepped
      split at stepped
      · cases stepped
        exact lost
      · cases stepped
  | finished =>
      simp [threadPoolDestroy, calling] at stepped

theorem threadPoolStep_nothingLost {action : PoolAction threads}
    (accounts : Accounts pool queue held) (lost : NothingLost pool)
    (stepped : threadPoolStep pool action = some after) :
    NothingLost after := by
  cases action with
  | addJob job =>
      exact threadPoolAddJob_nothingLost accounts lost stepped
  | run thread =>
      exact threadRun_nothingLost accounts lost stepped
  | destroy depth =>
      exact threadPoolDestroy_nothingLost accounts lost stepped

end Steps

/-- However the threads were interleaved and whichever allocations failed:
when `Thread_Pool_destroy` has destroyed the list of jobs, no node is left,
and none was freed twice. -/
theorem threadPool_frees_every_node {grants : Stream' Bool}
    {actions : List (PoolAction threads)} {pool : ThreadPool threads}
    (ran : run threadPoolStep (threadPoolNew threads grants) actions =
      some pool) (finished : pool.destroy = .finished) :
    ∃ enough, ∀ depth ≥ enough, ∃ after,
      (linkedlistDestroy depth pool.jobs).from pool.memory =
        (.ok (), after) ∧
      ∀ address, after.node address = none := by
  have preserved : ∀ (pool : ThreadPool threads) action after,
      (∃ queue held, Accounts pool queue held) ∧ NothingLost pool →
      threadPoolStep pool action = some after →
      (∃ queue held, Accounts after queue held) ∧ NothingLost after := by
    rintro pool action after ⟨⟨queue, held, accounts⟩, lost⟩ stepped
    exact ⟨threadPoolStep_accounts accounts stepped,
      threadPoolStep_nothingLost accounts lost stepped⟩
  have start : NothingLost (threadPoolNew threads grants) :=
    ⟨[], chain_nil, fun _ present => absurd rfl present⟩
  rcases run_preserves preserved
      ⟨⟨[], _, threadPoolNew_accounts threads grants⟩, start⟩ ran with
    ⟨⟨queue, held, accounts⟩, cells, chain, covered⟩
  refine ⟨cells.length, fun depth enough => ?_⟩
  rcases linkednodeDestroy_from chain enough with ⟨after, freed, without⟩
  refine ⟨after, freed, fun address => ?_⟩
  rw [without.node]
  split
  · rfl
  · rename_i unlisted
    by_contra present
    rcases covered address present with listed | ⟨thread, holding⟩
    · exact unlisted listed
    · have exited := accounts.stopped thread (by rw [finished]; trivial)
      rw [exited] at holding
      cases holding

theorem threadPool_frees_every_node_shutdown :
    ∃ pool, run threadPoolStep (threadPoolNew 1 (Stream'.const true))
        shutdownRun = some pool ∧
      ∃ enough, ∀ depth ≥ enough, ∃ after,
        (linkedlistDestroy depth pool.jobs).from pool.memory =
          (.ok (), after) ∧
        ∀ address, after.node address = none := by
  have reached : (run threadPoolStep
      (threadPoolNew 1 (Stream'.const true)) shutdownRun).map
        (fun pool => pool.destroy) = some .finished := by
    decide +kernel
  rcases Option.map_eq_some_iff.mp reached with ⟨pool, ran, finished⟩
  exact ⟨pool, ran, threadPool_frees_every_node ran finished⟩

end UvgTorrent.InMemory
