import UvgTorrent.Objects.Constructors

/-!
# From the constructor to the destructor

A socket may be connected any number of times before it is destroyed.
`Socket_connect` allocates what the socket does not have yet, and frees the
block of the descriptor when it fails.
-/

namespace UvgTorrent.InBlocks

open CProgram CBlocks

/-- `(pointer == NULL) ? malloc(size) : pointer` -/
def mallocOnce : Pointer Nat → Prog Blocks (Pointer Nat)
  | .junk => liftExec (.error .uninitialised)
  | .null => do
      let block ← malloc
      pure (.ofOption block)
  | .target block => pure (.target block)

/-- A `memcpy` to the block behind a pointer. -/
def copyTo : Pointer Nat → Prog Blocks Unit
  | .junk => liftExec (.error .uninitialised)
  | .null => liftExec (.error .nullPointer)
  | .target _ => pure ()

/-- `Socket_connect` up to its call of `socket`. -/
def socketConnectBegin (this : SocketObject) : Prog Blocks SocketObject := do
  let localAddr ← mallocOnce this.localAddr
  let remoteAddr ← mallocOnce this.remoteAddr
  let sockDesc ← mallocOnce this.sockDesc
  pure { this with localAddr, remoteAddr, sockDesc }

/-- The end of `Socket_connect`, when its calls have come to a result. -/
def socketConnectEnd (this : SocketObject) :
    ExitCode → Prog Blocks SocketObject
  | .success => do
      copyTo this.localAddr
      copyTo this.sockDesc
      copyTo this.remoteAddr
      pure this
  | .failure => do
      this.sockDesc.release free
      pure { this with sockDesc := .null }

/-- A call of `Socket_connect` for each of the results. -/
def socketConnects : List ExitCode → SocketObject → Prog Blocks SocketObject
  | [], this => pure this
  | code :: rest, this => do
      let this ← socketConnectBegin this
      let this ← socketConnectEnd this code
      socketConnects rest this

/-- A socket that is made, connected and destroyed. -/
def socketLifetime (codes : List ExitCode) : Prog Blocks Unit := do
  match ← socketNew with
  | none => pure ()
  | some this =>
      let this ← socketConnects codes this
      socketDestroy this

/-- A peer that is made, connected and destroyed. -/
def peerLifetime (codes : List ExitCode) : Prog Blocks Unit := do
  match ← peerNew with
  | none => pure ()
  | some this =>
      match this.socket with
      | .junk => liftExec (.error .uninitialised)
      | .null => liftExec (.error .nullPointer)
      | .target socket =>
          let socket ← socketConnects codes socket
          peerDestroy { this with socket := .target socket }

section Lifetimes

variable {start : Blocks} {more : Multiset Nat} {stopped : Blocks → Prop}

theorem mallocOnce_bind {Answer : Type}
    {rest : Pointer Nat → Prog Blocks Answer}
    {after : Answer → Blocks → Prop} {pointer : Pointer Nat}
    {owned all : Multiset Nat} (owns : pointer.OwnsBlock owned)
    (kept : Multiset Nat) (order : all = owned + kept)
    (continued : ∀ answer owned, answer.OwnsBlock owned →
      Contract (Owes start (owned + kept)) (rest answer) after stopped) :
    Contract (Owes start all) (mallocOnce pointer >>= rest) after stopped := by
  rw [order]
  cases pointer with
  | junk => exact owns.elim
  | target block => exact continued (.target block) owned owns
  | null =>
      cases owns
      rw [zero_add]
      have allocated : Contract (Owes start kept) (mallocOnce .null)
          (fun answer blocks => ∃ owned, answer.OwnsBlock owned ∧
            Owes start (owned + kept) blocks) stopped :=
        Contract.bind malloc_settles
          fun block => Contract.pure fun _ settled => settled.ofOption
      apply Contract.bind allocated
      rintro answer blocks ⟨owned, owns, owes⟩
      exact continued answer owned owns blocks owes

theorem copyTo_contract (pointer : Pointer Nat) {before : Blocks → Prop} :
    Contract before (copyTo pointer) (fun _ => before) fun _ => True := by
  cases pointer with
  | junk => exact Contract.stop fun _ _ => trivial
  | null => exact Contract.stop fun _ _ => trivial
  | target block => exact Contract.pure fun _ holds => holds

theorem socketConnectBegin_contract (this : SocketObject) :
    Contract (Settled SocketObject.Owns start more (some this))
      (socketConnectBegin this)
      (fun answer => Settled SocketObject.Owns start more (some answer))
      stopped := by
  rintro blocks ⟨_, ⟨desc, ip, port, localAddr, remoteAddr, ownsDesc, ownsIp,
    ownsPort, ownsLocal, ownsRemote, rfl⟩, owes⟩
  refine mallocOnce_bind ownsLocal
    (desc + (remoteAddr + (ip + (port + ({this.this} + more))))) ?_ ?_
    blocks owes
  · ac_rfl
  intro newLocal first ownsLocal
  refine mallocOnce_bind ownsRemote
    (first + (desc + (ip + (port + ({this.this} + more))))) ?_ ?_
  · ac_rfl
  intro newRemote second ownsRemote
  refine mallocOnce_bind ownsDesc
    (second + (first + (ip + (port + ({this.this} + more))))) ?_ ?_
  · ac_rfl
  intro newDesc third ownsDesc
  apply Contract.pure
  intro blocks owes
  refine ⟨_, ⟨third, ip, port, first, second, ownsDesc, ownsIp, ownsPort,
    ownsLocal, ownsRemote, rfl⟩, ?_⟩
  have order : third + (second + (first + (ip + (port +
        ({this.this} + more))))) =
      third + (ip + (port + (first + (second + {this.this})))) + more := by
    ac_rfl
  exact order ▸ owes

theorem socketConnectEnd_contract (this : SocketObject) (code : ExitCode) :
    Contract (Settled SocketObject.Owns start more (some this))
      (socketConnectEnd this code)
      (fun answer => Settled SocketObject.Owns start more (some answer))
      fun _ => True := by
  cases code with
  | success =>
      apply Contract.bind (copyTo_contract this.localAddr)
      intro _
      apply Contract.bind (copyTo_contract this.sockDesc)
      intro _
      apply Contract.bind (copyTo_contract this.remoteAddr)
      intro _
      exact Contract.pure fun _ settled => settled
  | failure =>
      rintro blocks ⟨_, ⟨desc, ip, port, localAddr, remoteAddr, ownsDesc,
        ownsIp, ownsPort, ownsLocal, ownsRemote, rfl⟩, owes⟩
      rw [add_assoc] at owes
      refine Contract.bind (destroys_free.release _ _ _ _ _ ownsDesc)
        (fun _ => Contract.pure ?_) blocks owes
      intro blocks owes
      refine ⟨_, ⟨0, ip, port, localAddr, remoteAddr, rfl, ownsIp, ownsPort,
        ownsLocal, ownsRemote, rfl⟩, ?_⟩
      rw [zero_add]
      exact owes

/-- Whatever the calls come to, the socket goes on owning its blocks. -/
theorem socketConnects_contract (codes : List ExitCode)
    (this : SocketObject) :
    Contract (Settled SocketObject.Owns start more (some this))
      (socketConnects codes this)
      (fun answer => Settled SocketObject.Owns start more (some answer))
      fun _ => True := by
  induction codes generalizing this with
  | nil => exact Contract.pure fun _ settled => settled
  | cons code rest inductionHypothesis =>
      apply Contract.bind (socketConnectBegin_contract this)
      intro begun
      apply Contract.bind (socketConnectEnd_contract begun code)
      intro ended
      exact inductionHypothesis ended

theorem destroy_settled {Object : Type} {object : Object}
    {owns : Object → Multiset Nat → Prop} {destroy : Object → Prog Blocks Unit}
    (destroys : Destroys owns destroy) :
    Contract (Settled owns start more (some object)) (destroy object)
      (fun _ => Owes start more) stopped := by
  rintro blocks ⟨owned, holds, owes⟩
  exact destroys object owned start more _ holds blocks owes

theorem socketLifetime_owes (codes : List ExitCode) :
    Contract (Owes start more) (socketLifetime codes)
      (fun _ => Owes start more) fun _ => True := by
  apply Contract.bind socketNew_settles
  intro answer
  cases answer with
  | none => exact Contract.pure fun _ owes => owes
  | some this =>
      apply Contract.bind (socketConnects_contract codes this)
      intro connected
      exact destroy_settled socketDestroy_destroys

theorem peerLifetime_foresees {grants : Stream' Bool} (codes : List ExitCode)
    (granted : grants.get 0 = true → grants.get 1 = true) :
    Contract (Foresees start more grants) (peerLifetime codes)
      (fun _ => Owes start more) fun _ => True := by
  apply Contract.bind (peerNew_settled granted)
  intro answer
  cases answer with
  | none => exact Contract.pure fun _ owes => owes
  | some this =>
      rcases this with ⟨this, ip, socket⟩
      cases socket with
      | junk => exact Contract.stop fun _ _ => trivial
      | null => exact Contract.stop fun _ _ => trivial
      | target socket =>
          rintro blocks ⟨_, ⟨ofSocket, ofIp, ownsSocket, ownsIp, rfl⟩, owes⟩
          rw [add_assoc] at owes
          refine Contract.bind (socketConnects_contract codes socket) ?_
            blocks ⟨ofSocket, ownsSocket, owes⟩
          rintro connected blocks ⟨owned, ownsConnected, owes⟩
          rw [← add_assoc] at owes
          exact peerDestroy_destroys ⟨this, ip, .target connected⟩ _ _ _ _
            ⟨owned, ofIp, ownsConnected, ownsIp, rfl⟩ blocks owes

/-- A peer without memory for its address does not get as far as its
destructor. -/
theorem peerLifetime_owes (codes : List ExitCode) :
    Contract (Owes start more) (peerLifetime codes)
      (fun _ => Owes start more) fun _ => True := by
  apply contract_of_foresees
  intro grants
  by_cases granted : grants.get 0 = true → grants.get 1 = true
  · exact peerLifetime_foresees codes granted
  · rw [Classical.not_imp, Bool.not_eq_true] at granted
    exact Contract.bind (peerNew_stops granted.1 granted.2)
      fun _ _ made => made.elim

/-- Whichever allocations fail and whatever the connections come to: a socket
or a peer that has come to its end has left nothing behind, and freed nothing
that was not its own. -/
theorem lifetimes_owe (codes : List ExitCode) (blocks : Blocks) :
    Contract (fun current => current = blocks) (socketLifetime codes)
        (fun _ => Owes blocks 0) (fun _ => True) ∧
      Contract (fun current => current = blocks) (peerLifetime codes)
        (fun _ => Owes blocks 0) fun _ => True := by
  have begins : ∀ current, current = blocks → Owes blocks 0 current := by
    rintro current rfl
    exact owes_nothing current
  exact ⟨Contract.strengthen (socketLifetime_owes codes) begins,
    Contract.strengthen (peerLifetime_owes codes) begins⟩

end Lifetimes

/-! ## With memory for everything -/

structure SocketWritten (this : SocketObject) : Prop where
  sockDesc : IsSet this.sockDesc
  ip : IsSet this.ip
  port : IsSet this.port
  localAddr : IsSet this.localAddr
  remoteAddr : IsSet this.remoteAddr

/-- The pointer is that of a block. -/
def HasBlock (pointer : Pointer Nat) : Prop :=
  ∃ block, pointer = .target block

/-- A socket whose connection has begun. -/
structure SocketBegun (this : SocketObject) : Prop where
  sockDesc : HasBlock this.sockDesc
  ip : IsSet this.ip
  port : IsSet this.port
  localAddr : HasBlock this.localAddr
  remoteAddr : HasBlock this.remoteAddr

section Unfailing

theorem HasBlock.isSet {pointer : Pointer Nat} (has : HasBlock pointer) :
    IsSet pointer := by
  rcases has with ⟨block, rfl⟩
  exact trivial

theorem SocketBegun.written {this : SocketObject} (begun : SocketBegun this) :
    SocketWritten this :=
  ⟨begun.sockDesc.isSet, begun.ip, begun.port, begun.localAddr.isSet,
    begun.remoteAddr.isSet⟩

end Unfailing

end UvgTorrent.InBlocks
