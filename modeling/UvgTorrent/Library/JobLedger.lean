import Mathlib.Data.List.Perm.Subperm

/-!
# The accounts of a job queue

Jobs are added to a queue and taken from its front by workers.  A worker
executes the job it holds before it takes another one, and what is left in
the queue may be discarded at the end.  The ledger records who took and who
executed which job.
-/

namespace JobLedger

variable {Worker Job : Type} [DecidableEq Worker]

structure Ledger (Worker Job : Type) where
  added : List Job
  queue : List Job
  taken : List (Worker × Job)
  held : Worker → Option Job
  executed : List (Worker × Job)
  discarded : List Job

namespace Ledger

/-- Nothing has been added. -/
def blank : Ledger Worker Job :=
  ⟨[], [], [], fun _ => none, [], []⟩

def add (ledger : Ledger Worker Job) (job : Job) : Ledger Worker Job :=
  { ledger with
    added := ledger.added ++ [job]
    queue := ledger.queue ++ [job] }

/-- A worker takes the job at the front, which is followed by `rest`. -/
def take (ledger : Ledger Worker Job) (worker : Worker) (job : Job)
    (rest : List Job) : Ledger Worker Job :=
  { ledger with
    queue := rest
    taken := ledger.taken ++ [(worker, job)]
    held := fun other =>
      if other = worker then some job else ledger.held other }

def execute (ledger : Ledger Worker Job) (worker : Worker) (job : Job) :
    Ledger Worker Job :=
  { ledger with
    held := fun other => if other = worker then none else ledger.held other
    executed := ledger.executed ++ [(worker, job)] }

def discard (ledger : Ledger Worker Job) : Ledger Worker Job :=
  { ledger with
    queue := []
    discarded := ledger.discarded ++ ledger.queue }

end Ledger

/-- The entries of one worker. -/
def entries (worker : Worker) (log : List (Worker × Job)) :
    List (Worker × Job) :=
  log.filter fun entry => entry.1 = worker

/-- The accounts agree. -/
structure Balanced (ledger : Ledger Worker Job) : Prop where
  ordered : ledger.added =
    ledger.taken.map Prod.snd ++ ledger.queue ++ ledger.discarded
  fair : ∀ worker, entries worker ledger.taken =
    entries worker ledger.executed ++
      (ledger.held worker).toList.map fun job => (worker, job)

section Steps

variable {ledger : Ledger Worker Job} {worker : Worker} {job : Job}

theorem entries_snoc_self (log : List (Worker × Job)) :
    entries worker (log ++ [(worker, job)]) =
      entries worker log ++ [(worker, job)] := by
  simp [entries]

theorem entries_snoc_other {other : Worker} (different : other ≠ worker)
    (log : List (Worker × Job)) :
    entries other (log ++ [(worker, job)]) = entries other log := by
  simp [entries, different.symm]

theorem blank_balanced : Balanced (.blank : Ledger Worker Job) where
  ordered := rfl
  fair := fun _ => rfl

theorem Balanced.add (balanced : Balanced ledger)
    (noneDiscarded : ledger.discarded = []) (job : Job) :
    Balanced (ledger.add job) where
  ordered := by
    have before := balanced.ordered
    rw [noneDiscarded, List.append_nil] at before
    simp only [Ledger.add, noneDiscarded, before, List.append_nil,
      List.append_assoc]
  fair := balanced.fair

theorem Balanced.take {rest : List Job} (balanced : Balanced ledger)
    (front : ledger.queue = job :: rest)
    (idle : ledger.held worker = none) :
    Balanced (ledger.take worker job rest) where
  ordered := by
    have before := balanced.ordered
    rw [front] at before
    simp only [Ledger.take, before, List.map_append, List.map_cons,
      List.map_nil, List.append_assoc, List.cons_append, List.nil_append]
  fair := by
    intro other
    have before := balanced.fair other
    simp only [Ledger.take]
    by_cases same : other = worker
    · subst same
      rw [idle] at before
      rw [entries_snoc_self, before, if_pos rfl]
      simp
    · rw [entries_snoc_other same, before, if_neg same]

theorem Balanced.execute (balanced : Balanced ledger)
    (busy : ledger.held worker = some job) :
    Balanced (ledger.execute worker job) where
  ordered := balanced.ordered
  fair := by
    intro other
    have before := balanced.fair other
    simp only [Ledger.execute]
    by_cases same : other = worker
    · subst same
      rw [busy] at before
      rw [entries_snoc_self, before, if_pos rfl]
      simp
    · rw [entries_snoc_other same, before, if_neg same]

theorem Balanced.discard (balanced : Balanced ledger)
    (noneDiscarded : ledger.discarded = []) :
    Balanced ledger.discard where
  ordered := by
    have before := balanced.ordered
    rw [noneDiscarded, List.append_nil] at before
    simp only [Ledger.discard, noneDiscarded, before, List.nil_append,
      List.append_nil]
  fair := balanced.fair

end Steps

/-! ## What balanced accounts say -/

section Balanced

variable {ledger : Ledger Worker Job}

theorem Balanced.held_taken (balanced : Balanced ledger) {worker : Worker}
    {job : Job} (holds : ledger.held worker = some job) :
    (worker, job) ∈ ledger.taken := by
  have fair := balanced.fair worker
  rw [holds] at fair
  have member : (worker, job) ∈ entries worker ledger.taken := by
    rw [fair]
    exact List.mem_append_right _ (.head _)
  exact (List.mem_filter.mp member).1

/-- Jobs are taken in the order in which they were added. -/
theorem Balanced.taken_prefix (balanced : Balanced ledger) :
    ledger.taken.map Prod.snd <+: ledger.added := by
  rw [balanced.ordered, List.append_assoc]
  exact List.prefix_append _ _

variable [DecidableEq Job]

theorem count_entries (log : List (Worker × Job)) (worker : Worker)
    (job : Job) :
    (entries worker log).count (worker, job) = log.count (worker, job) :=
  List.count_filter (by simp)

theorem Balanced.executed_subperm (balanced : Balanced ledger) :
    ledger.executed.Subperm ledger.taken := by
  rw [List.subperm_ext_iff]
  rintro ⟨worker, job⟩ _
  rw [← count_entries, ← count_entries ledger.taken, balanced.fair worker,
    List.count_append]
  exact Nat.le_add_right _ _

/-- No job is executed twice, or executed and discarded. -/
theorem Balanced.settled_nodup (balanced : Balanced ledger)
    (distinct : ledger.added.Nodup) :
    (ledger.executed.map Prod.snd ++ ledger.discarded).Nodup := by
  rcases balanced.executed_subperm with ⟨part, same, inside⟩
  rw [balanced.ordered] at distinct
  have fewer : (part.map Prod.snd ++ ledger.discarded).Sublist
      (ledger.taken.map Prod.snd ++ ledger.queue ++ ledger.discarded) :=
    ((inside.map Prod.snd).trans (List.sublist_append_left _ _)).append
      (List.Sublist.refl _)
  have reordered : (part.map Prod.snd ++ ledger.discarded).Perm
      (ledger.executed.map Prod.snd ++ ledger.discarded) :=
    (same.map Prod.snd).append_right _
  exact reordered.nodup_iff.mp (distinct.sublist fewer)

/-- Once no job is queued and no worker holds one, each job added was
executed or discarded. -/
theorem Balanced.settled_perm (balanced : Balanced ledger)
    (drained : ledger.queue = [])
    (idle : ∀ worker, ledger.held worker = none) :
    ledger.added.Perm
      (ledger.executed.map Prod.snd ++ ledger.discarded) := by
  have same : ledger.taken.Perm ledger.executed := by
    rw [List.perm_iff_count]
    rintro ⟨worker, job⟩
    have fair := balanced.fair worker
    rw [idle worker] at fair
    rw [← count_entries, fair, ← count_entries ledger.executed,
      Option.toList_none, List.map_nil, List.append_nil]
  rw [balanced.ordered, drained, List.append_nil]
  exact (same.map Prod.snd).append_right _

end Balanced

end JobLedger
