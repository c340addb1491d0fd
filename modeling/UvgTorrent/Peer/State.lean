import UvgTorrent.Peer.Socket

/-!
# Peers

A peer is its socket and the fields that the extended handshake fills in.
-/

namespace UvgTorrent

open CProgram

structure Peer where
  socket : Socket
  utMetadata : Int
  metadataSize : Int
  numPieces : Int
  pieceSize : Int

variable {α : Type}

def onSocket (program : Prog Socket α) : Prog Peer α :=
  onPart Peer.socket (fun socket peer => { peer with socket }) program

@[simp]
theorem onSocket_from (program : Prog Socket α) (peer : Peer) :
    (onSocket program).from peer =
      ((program.from peer.socket).1,
        { peer with socket := (program.from peer.socket).2 }) :=
  rfl

theorem onSocket_bind_from_ok {β : Type} {peer : Peer}
    {program : Prog Socket α} {value : α} {after : Socket}
    (finished : program.from peer.socket = (.ok value, after))
    (rest : α → Prog Peer β) :
    (onSocket program >>= rest).from peer =
      (rest value).from { peer with socket := after } :=
  bind_from_ok (by rw [onSocket_from, finished]) rest

end UvgTorrent
