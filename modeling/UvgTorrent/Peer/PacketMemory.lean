import UvgTorrent.Objects.PeerLists
import UvgTorrent.Peer.MetadataMemory
import UvgTorrent.Tracker.Exchange

/-!
# A conversation with a peer in memory

The functions of a peer once more, with the blocks that its socket, the
packets and the dictionary of the metadata take.  Any allocation may fail but
those of the dictionary, which are taken to succeed.
-/

namespace UvgTorrent.InBlocks

open CProgram CText CArray MachineInt CBlocks

/-- `*pointer`, for a pointer of an object. -/
def follow {σ Object : Type} : Pointer Object → Prog σ Object
  | .junk => liftExec (.error .uninitialised)
  | .null => liftExec (.error .nullPointer)
  | .target object => pure object

section Receives

variable {Response : Type} {packet : PacketObject (List Nat)}

end Receives

section Functions

end Functions

end UvgTorrent.InBlocks
