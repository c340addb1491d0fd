import UvgTorrent.Peer.Conversation

/-!
# The loop over the peers of an announce response

`Tracker_announce` talks to one peer after another.  The exit code of the
handshake decides whether the metadata is asked for; a piece is asked for in
every case.
-/

namespace UvgTorrent

open CProgram EventLog

/-- What the machine decides while the program talks to one peer. -/
structure VisitSurroundings where
  handshake : Surroundings
  extendedHandshake : Surroundings
  metadata : MetadataSurroundings

/-- A call whose exit code goes to the log. -/
def returning (call : PeerCall) (program : Prog Peer ExitCode) :
    Prog Peer ExitCode := do
  let res ← program
  onSocket (modifyState fun socket => socket.record (.returned call res))
  pure res

/-- The branch of the loop for a handshake that succeeded. -/
def extendAndFetch (around : VisitSurroundings) (depth : Nat) :
    Prog Peer Unit := do
  let res ← returning .extendedHandshake
    (peerExtendedHandshake around.extendedHandshake)
  match res with
  | .success =>
      let peer ← getState
      -- the array `metadata` is declared with this size
      if peer.metadataSize < 0 then
        liftExec (.error .badSize)
      else
        let _ ← returning .getMetadata
          (peerGetMetadata around.metadata depth peer.metadataSize)
        pure ()
  | .failure => pure ()

/-- The body of the loop once the handshake has returned. -/
def afterHandshake (around : VisitSurroundings) (depth : Nat)
    (res : ExitCode) : Prog Peer Unit := do
  match res with
  | .success => extendAndFetch around depth
  | .failure => pure ()
  let _ ← returning .getPiece (peerGetPiece depth)
  pure ()

/-- The body of the loop. -/
def visitPeer (infoHash : InfoHash) (depth : Nat)
    (around : VisitSurroundings) : Prog Peer Unit := do
  let res ← returning .handshake (peerHandshake around.handshake infoHash)
  afterHandshake around depth res

/-- The loop over the peers in `Tracker_announce`. -/
def visitPeers (infoHash : InfoHash) (depth : Nat)
    (around : Nat → VisitSurroundings) : Prog (List Peer) Unit :=
  forEach fun index => visitPeer infoHash depth (around index)

end UvgTorrent
