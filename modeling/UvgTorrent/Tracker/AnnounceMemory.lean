import UvgTorrent.Peer.PacketLeaks
import UvgTorrent.Tracker.ConnectMemory

/-!
# An announce in memory

`Tracker_announce` once more, with the blocks of its packet, of the peers that
it makes, and of the conversations with them.  The list that the hash of the
torrent is split into takes `hashParts` blocks, and their allocation succeeds.
-/

namespace UvgTorrent.InBlocks

open CProgram CText CArray MachineInt CBlocks

/-- The part of a response in front of the peers. -/
structure AnnounceHeader where
  action : Int32
  transactionId : Int32
  interval : Int32
  leechers : Int32
  seeders : Int32

/-- What the exits of `Tracker_announce` destroy. -/
structure AnnounceObjects where
  infoHashList : List Nat
  announceReq : PacketObject AnnounceObject

/-- The packet of an announce. -/
abbrev PacketObject.OwnsAnnounce (announceReq : PacketObject AnnounceObject) :
    Multiset Nat → Prop :=
  announceReq.Owns AnnounceObject.Owns

def AnnounceObjects.Owns (objects : AnnounceObjects)
    (owned : Multiset Nat) : Prop :=
  ∃ packet, objects.announceReq.OwnsAnnounce packet ∧
    owned = packet + (objects.infoHashList : Multiset Nat)

section Owning

variable {start : Blocks} {more : Multiset Nat} {stopped : Blocks → Prop}

end Owning

/-! ## The account of an announce -/

/-- The peers visited since, what their visits have left, and four blocks for
every peer that lost its memory to a refusal. -/
def Announced (depth : Nat) (start : Blocks) (visits : Stream' PeerVisit)
    (visited : List Peer) (more : Multiset Nat) (ledger : Ledger TrackerRun) :
    Prop :=
  ∃ peers left lost leaked,
    Unvisited (visits.drop peers.length) (visited ++ peers) ledger.state ∧
      VisitsLeave depth (visits.take peers.length) peers left ∧
      Multiset.card leaked = left + 4 * lost ∧
      Owes (start.missing lost) (leaked + more) ledger.blocks

section Accounts

variable {depth : Nat} {start : Blocks} {visits : Stream' PeerVisit}
  {visited : List Peer} {more : Multiset Nat} {ledger : Ledger TrackerRun}

/-- What is lost later adds to what has been lost. -/
theorem Announced.trans {peers : List Peer} {left lost : Nat}
    {leaked : Multiset Nat}
    (leave : VisitsLeave depth (visits.take peers.length) peers left)
    (size : Multiset.card leaked = left + 4 * lost)
    (announced : Announced depth (start.missing lost)
      (visits.drop peers.length) (visited ++ peers) (leaked + more) ledger) :
    Announced depth start visits visited more ledger := by
  rcases announced with ⟨others, further, second, later, ⟨ahead, before⟩,
    leaveLater, laterSize, owes⟩
  refine ⟨peers ++ others, left + further, lost + second, later + leaked,
    ⟨?_, ?_⟩, ?_, ?_, ?_⟩
  · rw [ahead, List.length_append, Stream'.drop_drop]
  · rw [before, List.append_assoc]
  · rw [List.length_append, Stream'.take_add]
    exact leave.append leaveLater
  · rw [Multiset.card_add, laterSize, size]
    omega
  · rw [missing_missing, ← add_assoc] at owes
    exact owes

theorem Announced.after {lost : Nat} {leaked : Multiset Nat}
    (size : Multiset.card leaked = 4 * lost)
    (announced : Announced depth (start.missing lost) visits visited
      (leaked + more) ledger) :
    Announced depth start visits visited more ledger := by
  have none : VisitsLeave depth (visits.take ([] : List Peer).length) [] 0 :=
    .nil
  rw [← zero_add (4 * lost)] at size
  rw [← List.append_nil visited] at announced
  exact Announced.trans none size announced

end Accounts

/-! ## The same announce without the blocks -/

def TrackerAnnounceResponse.header (response : TrackerAnnounceResponse) :
    AnnounceHeader :=
  ⟨response.action, response.transactionId, response.interval,
    response.leechers, response.seeders⟩

section Records

variable {σ : Type}

end Records

section Announces

end Announces

end UvgTorrent.InBlocks
