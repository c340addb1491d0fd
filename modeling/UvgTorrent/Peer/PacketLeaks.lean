import UvgTorrent.Peer.PacketMemory

/-!
# What a conversation leaves behind

A packet is lost when a request for a piece is not sent, and when the fetch of
the metadata is broken off.  Both can be read off the log of the socket, and
so can whether metadata was read to its end: then what its dictionary leaves
is lost as well.
-/

namespace UvgTorrent.InBlocks

open CProgram CText CArray MachineInt CBlocks

/-! ## The lost packets of a log -/

/-- A request of a metadata packet or of a piece packet, by the size of its
array. -/
def AsksForPiece (message : List UInt8) : Prop :=
  message.length = 31 ∨ message.length = 17

instance (message : List UInt8) : Decidable (AsksForPiece message) :=
  inferInstanceAs (Decidable (_ ∨ _))

/-- The packets that are lost with an event; `sent` is the result of the next
`send`. -/
def eventLoses (sent : Bool) : Event → Nat
  | .send _ message => if AsksForPiece message ∧ sent = false then 1 else 0
  | .returned .getMetadata code => code.value
  | _ => 0

/-- The results of `send` behind an event. -/
def sendsAfter (sends : Stream' Bool) : Event → Stream' Bool
  | .send _ _ => sends.tail
  | _ => sends

def packetsLost : List Event → Stream' Bool → Nat
  | [], _ => 0
  | event :: rest, sends =>
      eventLoses sends.head event + packetsLost rest (sendsAfter sends event)

theorem packetsLost_concat (events : List Event) (event : Event)
    (sends : Stream' Bool) :
    packetsLost (events ++ [event]) sends =
      packetsLost events sends +
        eventLoses (events.foldl sendsAfter sends).head event := by
  induction events generalizing sends with
  | nil =>
      rw [List.nil_append, packetsLost, packetsLost, packetsLost, add_comm]
      rfl
  | cons first rest inductionHypothesis =>
      rw [List.cons_append, packetsLost, packetsLost, inductionHypothesis,
        add_assoc]
      rfl

/-- The event of metadata that was read to its end. -/
def metadataRead : Event := .returned .getMetadata .success

/-- How a log is read: from where on, what it is known to start with, and
whether metadata has been read to its end since. -/
structure Reading where
  start : Socket
  front : List Event
  read : Bool

/-- Since then these events have come to lose this many packets; `sends` are
the results of `send` that are left. -/
structure LosesIn (reading : Reading) (lost : Nat) (log : List Event)
    (sends : Stream' Bool) (events : List Event) : Prop where
  front : reading.front <+: log
  log : log = reading.start.log ++ events
  sends : sends = events.foldl sendsAfter reading.start.sends
  lost : packetsLost events reading.start.sends = lost
  read : metadataRead ∈ events ↔ reading.read = true

def Loses (reading : Reading) (lost : Nat) (socket : Socket) : Prop :=
  ∃ events, LosesIn reading lost socket.log socket.sends events

section Sockets

variable {reading : Reading} {socket : Socket} {lost : Nat}

theorem Loses.record (loses : Loses reading lost socket) {after : Socket}
    {event : Event} (other : event ≠ metadataRead)
    (log : after.log = socket.log ++ [event])
    (sends : after.sends = sendsAfter socket.sends event) :
    Loses reading (lost + eventLoses socket.sends.head event) after := by
  rcases loses with ⟨events, loses⟩
  refine ⟨events ++ [event], ?_, ?_, ?_, ?_, ?_⟩
  · rw [log]
    exact loses.front.trans (List.prefix_append _ _)
  · rw [log, loses.log, List.append_assoc]
  · rw [sends, loses.sends, List.foldl_append]
    rfl
  · rw [packetsLost_concat, loses.lost, loses.sends]
  · rw [List.mem_append, List.mem_singleton, loses.read]
    exact or_iff_left fun same => other same.symm

/-- With this event the log is read another way. -/
theorem Loses.reads (loses : Loses reading lost socket) :
    Loses ⟨reading.start, socket.log ++ [metadataRead], true⟩ lost
      (socket.record metadataRead) := by
  rcases loses with ⟨events, loses⟩
  refine ⟨events ++ [metadataRead], List.prefix_refl _, ?_, ?_, ?_, ?_⟩
  · show socket.log ++ [metadataRead] = _
    rw [loses.log, List.append_assoc]
  · show socket.sends = _
    rw [loses.sends, List.foldl_append]
    rfl
  · rw [packetsLost_concat, loses.lost]
    rfl
  · exact iff_of_true (List.mem_append_right _ List.mem_cons_self) rfl

/-- An event that neither loses a packet nor takes the result of a `send`. -/
theorem Loses.quiet (loses : Loses reading lost socket) {after : Socket}
    (event : Event) (other : event ≠ metadataRead)
    (loseless : ∀ sent, eventLoses sent event = 0)
    (kept : ∀ sends, sendsAfter sends event = sends)
    (log : after.log = socket.log ++ [event])
    (sends : after.sends = socket.sends) : Loses reading lost after := by
  have recorded := loses.record other log (sends.trans (kept socket.sends).symm)
  rw [loseless] at recorded
  exact recorded

end Sockets

/-! ## The functions of a peer -/

section Functions

variable {reading : Reading} {lost : Nat} {blocks : Blocks}
  {more : Multiset Nat}

end Functions

/-! ## The account -/

/-- Two blocks for each packet that the log has lost, and for `broken` more
that it is yet to lose, beside those that are kept. -/
def Accounts {σ : Type} (losing : Nat → σ → Prop) (start : Blocks)
    (kept : Multiset Nat) (broken : Nat) (ledger : Ledger σ) : Prop :=
  ∃ lost leaked, Multiset.card leaked = 2 * (lost + broken) ∧
    Both (losing lost) (Owes start (leaked + kept)) ledger

section Accounts

variable {σ α : Type} {losing : Nat → σ → Prop} {blocks : Blocks}
  {kept : Multiset Nat} {broken : Nat} {program : Prog (Ledger σ) α}

end Accounts

section Conversation

variable {reading : Reading} {blocks : Blocks} {kept : Multiset Nat}

/-- The visit of a peer up to the fetch of its metadata. -/
def shakeHands (infoHash : List UInt8) (visit : PeerVisit) :
    Prog Peer ExitCode := do
  let res ← returning .handshake (peerHandshakeOn visit.around.handshake
    visit.infoHashBytes infoHash)
  match res with
  | .success =>
      returning .extendedHandshake
        (peerExtendedHandshake visit.around.extendedHandshake)
  | .failure => pure .failure

/-- How the log of a visit is read behind the fetch of the metadata, and how
many blocks its dictionary has left. -/
inductive Fetched (visit : PeerVisit) (depth : Nat) :
    List Event → Bool → Nat → Prop
  | unread : Fetched visit depth [] false 0
  | read {infoHash : List UInt8} {before after : Peer} {assembly : Assembly}
      (shaken : (shakeHands infoHash visit).from visit.peer =
        (.ok .success, before))
      (assembled : (assembleMetadata visit.around.metadata depth
        before.metadataSize).from before = (.ok (.success, assembly), after))
      (leaves : LeavesDictionary depth assembly
        (metadataLeft visit.around.metadata.order depth assembly)) :
      Fetched visit depth (after.socket.log ++ [metadataRead]) true
        (metadataLeft visit.around.metadata.order depth assembly)

variable {visit : PeerVisit} {infoHash : List UInt8}

end Conversation

/-! ## The loop over the peers -/

/-- The events that the visit of a peer has added to its log. -/
def PeerVisit.events (visit : PeerVisit) (peer : Peer) : List Event :=
  peer.socket.log.drop visit.peer.socket.log.length

/-- The packets that the visit of a peer has lost, from the log it left. -/
def PeerVisit.lost (visit : PeerVisit) (peer : Peer) : Nat :=
  packetsLost (PeerVisit.events visit peer) visit.peer.socket.sends

/-- The blocks that the visit of a peer leaves: two for each packet that was
lost, and what the dictionary of its metadata leaves when that was read to its
end. -/
def PeerVisit.Leaves (depth : Nat) (visit : PeerVisit) (peer : Peer)
    (count : Nat) : Prop :=
  ∃ front read left,
    Fetched visit depth front read left ∧
      front <+: peer.socket.log ∧
      (metadataRead ∈ PeerVisit.events visit peer ↔ read = true) ∧
        count = 2 * PeerVisit.lost visit peer + left

/-- What the visits of some peers leave together. -/
inductive VisitsLeave (depth : Nat) :
    List PeerVisit → List Peer → Nat → Prop
  | nil : VisitsLeave depth [] [] 0
  | cons {visit : PeerVisit} {peer : Peer} {visits : List PeerVisit}
      {peers : List Peer} {first others : Nat}
      (leaves : PeerVisit.Leaves depth visit peer first)
      (rest : VisitsLeave depth visits peers others) :
      VisitsLeave depth (visit :: visits) (peer :: peers) (first + others)

theorem VisitsLeave.append {depth : Nat} {visits further : List PeerVisit}
    {peers others : List Peer} {first second : Nat}
    (leave : VisitsLeave depth visits peers first)
    (leaveFurther : VisitsLeave depth further others second) :
    VisitsLeave depth (visits ++ further) (peers ++ others)
      (first + second) := by
  induction leave with
  | nil =>
      rw [zero_add]
      exact leaveFurther
  | cons leaves _ inductionHypothesis =>
      rw [add_assoc]
      exact .cons leaves inductionHypothesis

section Loop

variable {start : Blocks} {more : Multiset Nat}

end Loop

end UvgTorrent.InBlocks
