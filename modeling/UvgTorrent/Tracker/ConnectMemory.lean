import UvgTorrent.Objects.Lifetimes
import UvgTorrent.Tracker.Exchange

/-!
# A connection in memory

`Tracker_connect` once more, with the object of the tracker and the blocks of
its socket and its packets.  Any allocation may fail.
-/

namespace UvgTorrent.InBlocks

open CProgram CText CArray MachineInt CBlocks

/-- The peers still to be visited, and those that have been. -/
structure Unvisited (visits : Stream' PeerVisit) (visited : List Peer)
    (run : TrackerRun) : Prop where
  visits : run.visits = visits
  visited : run.visited = visited

def VisitsNone {α : Type} (program : Prog TrackerRun α) : Prop :=
  ∀ visits visited,
    Preserves (Unvisited visits visited) (fun _ => True) program

section VisitsNone

variable {α β : Type}

theorem VisitsNone.bind {program : Prog TrackerRun α}
    {rest : α → Prog TrackerRun β} (first : VisitsNone program)
    (second : ∀ answer, VisitsNone (rest answer)) :
    VisitsNone (program >>= rest) :=
  fun visits visited => Preserves.bind (first visits visited)
    fun answer => second answer visits visited

theorem VisitsNone.pure (answer : α) :
    VisitsNone (Pure.pure answer : Prog TrackerRun α) :=
  fun _ _ => Preserves.pure answer

theorem VisitsNone.liftExec (run : Exec α) :
    VisitsNone (liftExec run : Prog TrackerRun α) :=
  fun _ _ => Preserves.liftExec (fun _ _ => trivial) run

theorem VisitsNone.getState : VisitsNone CProgram.getState :=
  fun _ _ _ holds => holds

end VisitsNone

/-! ## What a tracker leaves behind -/

/-- The tracker owns its blocks. -/
def Keeps (visits : Stream' PeerVisit) (visited : List Peer) (start : Blocks)
    (more : Multiset Nat) (this : TrackerObject) : Ledger TrackerRun → Prop :=
  Both (Unvisited visits visited)
    (Settled TrackerObject.Owns start more (some this))

section Owing

variable {visits : Stream' PeerVisit} {visited : List Peer} {start : Blocks}
  {more : Multiset Nat}

end Owing

/-! ## The same connections without the blocks -/

section Mirrors

end Mirrors

end UvgTorrent.InBlocks
