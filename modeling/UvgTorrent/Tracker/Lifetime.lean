import UvgTorrent.Objects.Constructors
import UvgTorrent.Tracker.AnnounceMemory

/-!
# The life of a tracker

A tracker is made, called any number of times in any order, and destroyed.
-/

namespace UvgTorrent.InBlocks

open CProgram CText CArray MachineInt CBlocks

/-- The calls of a tracker; `hashParts` are the blocks that the hash of the
torrent is split into. -/
inductive TrackerCall where
  | connect
  | announce (hash : CString) (hashParts : Nat)

/-- The same calls without the blocks. -/
def trackerCall (order : ByteOrder) (depth : Nat) :
    TrackerCall → Prog TrackerRun Unit
  | .connect => do
      let _ ← trackerConnect order
      pure ()
  | .announce hash _ => do
      let _ ← trackerAnnounce order hash depth
      pure ()

def trackerCalls (order : ByteOrder) (depth : Nat) :
    List TrackerCall → Prog TrackerRun Unit
  | [] => pure ()
  | call :: rest => do
      trackerCall order depth call
      trackerCalls order depth rest

/-! ## What the constructor loses -/

/-- A tracker that is settled, or nothing but what was lost. -/
def Answered (start : Blocks) (lost : Nat) :
    Option TrackerObject → Blocks → Prop
  | none, blocks => ∃ leaked, Owes start leaked blocks ∧
      Multiset.card leaked = lost
  | some this, blocks =>
      lost = 0 ∧ Settled TrackerObject.Owns start 0 (some this) blocks

section Leaks

variable {start : Blocks} {visits : Stream' PeerVisit} {visited : List Peer}
  {more : Multiset Nat} {grants : Stream' Bool}

end Leaks

/-! ## With memory for everything -/

section Mirrors

end Mirrors

end UvgTorrent.InBlocks
