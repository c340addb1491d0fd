import UvgTorrent.Objects.Lifetimes

/-!
# The peers of an announce response

Every peer is made on its own, copied into a node of a list, and its first
block is freed again: the address and the socket move to the copy.  A peer
whose node finds no memory loses them.
-/

namespace UvgTorrent.InBlocks

open CProgram CBlocks

/-- A node of the list, with its copy of a peer. -/
structure PeerNode where
  this : Nat
  value : Pointer PeerObject

structure PeerList where
  this : Nat
  nodes : List PeerNode

structure AnnounceObject where
  this : Nat
  peers : Pointer PeerList

def PeerNode.Owns (node : PeerNode) (owned : Multiset Nat) : Prop :=
  ∃ peer, node.value.Owns PeerObject.Owns peer ∧ owned = peer + {node.this}

def PeerList.Owns (list : PeerList) (owned : Multiset Nat) : Prop :=
  ∃ nodes, OwnsAll PeerNode.Owns list.nodes nodes ∧
    owned = nodes + {list.this}

def AnnounceObject.Owns (this : AnnounceObject) (owned : Multiset Nat) :
    Prop :=
  ∃ peers, this.peers.Owns PeerList.Owns peers ∧ owned = peers + {this.this}

section Destroying

variable {start : Blocks} {more : Multiset Nat} {stopped : Blocks → Prop}

end Destroying

/-! ## New peers -/

/-- A new socket has memory for an address and a port, and nothing else. -/
def SocketObject.IsNew (socket : SocketObject) : Prop :=
  ∃ this ip port,
    socket = ⟨this, .null, .target ip, .target port, .null, .null⟩

def PeerObject.IsNew (peer : PeerObject) : Prop :=
  ∃ this ip socket, peer = ⟨this, .target ip, .target socket⟩ ∧ socket.IsNew

/-- What the copies of a peer share. -/
def PeerObject.Contents (peer : PeerObject) (contents : Multiset Nat) :
    Prop :=
  ∃ socket ip : Multiset Nat, peer.socket.Owns SocketObject.Owns socket ∧
    peer.ip.OwnsBlock ip ∧ contents = socket + ip

section Peers

variable {start : Blocks} {more : Multiset Nat}

theorem PeerObject.Contents.owns {peer : PeerObject}
    {contents : Multiset Nat} (holds : peer.Contents contents) (value : Nat) :
    PeerObject.Owns { peer with this := value } (contents + {value}) := by
  rcases holds with ⟨socket, ip, ownsSocket, ownsIp, rfl⟩
  exact ⟨socket, ip, ownsSocket, ownsIp, add_assoc _ _ _⟩

theorem PeerObject.Owns.contents {peer : PeerObject} {owned : Multiset Nat}
    (owns : peer.Owns owned) :
    ∃ contents, peer.Contents contents ∧ owned = contents + {peer.this} := by
  rcases owns with ⟨socket, ip, ownsSocket, ownsIp, rfl⟩
  exact ⟨socket + ip, ⟨socket, ip, ownsSocket, ownsIp, rfl⟩,
    (add_assoc _ _ _).symm⟩

theorem PeerObject.Contents.card {peer : PeerObject} {contents : Multiset Nat}
    (holds : peer.Contents contents) (isNew : peer.IsNew) :
    Multiset.card contents = 4 := by
  rcases isNew with ⟨this, ip, _, rfl, socket, socketIp, port, rfl⟩
  rcases holds with ⟨_, _, ⟨_, _, _, _, _, rfl, rfl, rfl, rfl, rfl, rfl⟩, rfl,
    rfl⟩
  rfl

end Peers

/-! ## What the loop over the records comes to -/

/-- So many peers have lost what their copies would have shared. -/
def PeersLost (start : Blocks) (more : Multiset Nat) (lost : Nat)
    (blocks : Blocks) : Prop :=
  ∃ leaked, Multiset.card leaked = 4 * lost ∧
    Owes (start.missing lost) (leaked + more) blocks

/-- What an object owns, beside what has been lost on the way to it. -/
def Grown (owns : Multiset Nat → Prop) (start : Blocks)
    (more : Multiset Nat) (blocks : Blocks) : Prop :=
  ∃ owned lost, owns owned ∧ PeersLost start (owned + more) lost blocks

section Appending

variable {start : Blocks} {more : Multiset Nat}

theorem PeerList.Owns.append {list : PeerList} {owned contents : Multiset Nat}
    (owns : list.Owns owned) {peer : PeerObject} {node : PeerNode}
    {value : Nat} (holds : peer.Contents contents)
    (copied : node.value = .target { peer with this := value }) :
    PeerList.Owns { list with nodes := list.nodes ++ [node] }
      ({value} + ({node.this} + (contents + owned))) := by
  rcases owns with ⟨nodes, ownsNodes, rfl⟩
  have ownsNode : node.Owns (contents + {value} + {node.this}) := by
    refine ⟨contents + {value}, ?_, rfl⟩
    rw [copied]
    exact holds.owns value
  refine ⟨_, ownsNodes.concat ownsNode, ?_⟩
  show {value} + ({node.this} + (contents + (nodes + {list.this}))) =
    nodes + (contents + {value} + {node.this}) + {list.this}
  ac_rfl

section Grown

variable {owns wider : Multiset Nat → Prop} {blocks : Blocks}

/-- What is lost later adds to what has been lost. -/
theorem Grown.trans {first : Nat} {leaked : Multiset Nat}
    (size : Multiset.card leaked = 4 * first)
    (grown : Grown owns (start.missing first) (leaked + more) blocks) :
    Grown owns start more blocks := by
  rcases grown with ⟨owned, second, holds, later, laterSize, owes⟩
  refine ⟨owned, first + second, holds, later + leaked, ?_, ?_⟩
  · rw [Multiset.card_add, laterSize, size]
    omega
  · rw [missing_missing, add_left_comm owned, ← add_assoc] at owes
    exact owes

end Grown

end Appending

/-! ## With memory for everything -/

structure PeerWritten (peer : PeerObject) : Prop where
  ip : IsSet peer.ip
  socket : ∃ socket, peer.socket = .target socket ∧ SocketWritten socket

def NodeWritten (node : PeerNode) : Prop :=
  ∃ peer, node.value = .target peer ∧ PeerWritten peer

/-- The nodes are written, and so many. -/
def NodesWritten (count : Nat) (nodes : List PeerNode) : Prop :=
  nodes.length = count ∧ ∀ node ∈ nodes, NodeWritten node

section Unfailing

theorem NodesWritten.concat {count : Nat} {nodes : List PeerNode}
    (all : NodesWritten count nodes) {node : PeerNode}
    (written : NodeWritten node) :
    NodesWritten (count + 1) (nodes ++ [node]) := by
  refine ⟨?_, ?_⟩
  · rw [List.length_append, all.1, List.length_singleton]
  · intro other member
    rcases List.mem_append.mp member with earlier | last
    · exact all.2 other earlier
    · rw [List.mem_singleton.mp last]
      exact written

end Unfailing

end UvgTorrent.InBlocks
