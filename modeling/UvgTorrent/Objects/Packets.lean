import UvgTorrent.Library.Ledger

/-!
# Packets in memory

The packets of the protocols are made and destroyed to one pattern: a packet
owns its request, and its response once one has been received.  `destroy` is
the destructor of the response.
-/

namespace UvgTorrent.InBlocks

open CProgram CBlocks

/-- A request of a packet: the blocks it is in, and nothing else. -/
def requestNew : Prog Blocks (Option Nat) :=
  newObject id (fun this => pure (.success, this)) free

/-- The part that the packets of the protocols share. -/
structure PacketObject (Response : Type) where
  this : Nat
  request : Pointer Nat
  response : Pointer Response

section Definitions

variable {σ Raw Answer Kept Response : Type}

def PacketObject.raw (this : Nat) : PacketObject Response :=
  ⟨this, .junk, .junk⟩

def packetInit (this : PacketObject Response) :
    Prog Blocks (ExitCode × PacketObject Response) := do
  let this := { this with request := .null, response := .null }
  let request ← requestNew
  let this := { this with request := .ofOption request }
  match request with
  | none => pure (.failure, this)
  | some _ => pure (.success, this)

def packetDestroy (destroy : Response → Prog Blocks Unit)
    (this : PacketObject Response) : Prog Blocks Unit := do
  this.request.release free
  this.response.release destroy
  free this.this

def packetNew (destroy : Response → Prog Blocks Unit) :
    Prog Blocks (Option (PacketObject Response)) :=
  newObject PacketObject.raw packetInit (packetDestroy destroy)

/-- A packet behind the constructor of its response. -/
def PacketObject.answered (this : PacketObject Response) :
    Option (Answer × Response) → Option Answer × PacketObject Response
  | none => (none, { this with response := .null })
  | some (answer, response) =>
      (some answer, { this with response := .target response })

def PacketObject.Owns (owns : Response → Multiset Nat → Prop)
    (this : PacketObject Response) (owned : Multiset Nat) : Prop :=
  ∃ request response : Multiset Nat, this.request.OwnsBlock request ∧
    this.response.Owns owns response ∧
      owned = request + (response + {this.this})

end Definitions

section Owning

variable {Response : Type} {owns : Response → Multiset Nat → Prop}
  {destroy : Response → Prog Blocks Unit} {start : Blocks}
  {more : Multiset Nat} {stopped : Blocks → Prop}

theorem requestNew_settles :
    Contract (Owes start more) requestNew
      (Settled (fun block owned => owned = {block}) start more) stopped := by
  apply contract_of_foresees
  intro grants
  apply newObject_settles destroys_free
  intro _ this
  apply Contract.pure
  intro blocks foresees
  exact ⟨{this}, rfl, foresees.toOwes⟩

end Owning

/-! ## With memory for everything -/

/-- The pointer has been set. -/
def IsSet {Object : Type} (pointer : Pointer Object) : Prop :=
  pointer.Holds fun _ => True

structure Written {Response : Type} (good : Response → Prop)
    (packet : PacketObject Response) : Prop where
  request : IsSet packet.request
  response : packet.response.Holds good

/-- A packet that has a request and no response. -/
structure Unanswered {Response : Type} (packet : PacketObject Response) :
    Prop where
  request : IsSet packet.request
  response : packet.response = .null

section Unfailing

variable {σ Raw Answer Kept Response : Type} {good : Response → Prop}
  {destroy : Response → Prog Blocks Unit} {packet : PacketObject Response}

theorem Unanswered.written (unanswered : Unanswered packet) :
    Written good packet := by
  refine ⟨unanswered.request, ?_⟩
  rw [unanswered.response]
  exact trivial

end Unfailing

/-! ## With memory for some of it -/

/-- The blocks of a packet without a response. -/
def requested (this request : Nat) : Multiset Nat :=
  {request} + {this}

/-- A packet that was made, or nothing. -/
def Made {Response : Type} (start : Blocks) (more : Multiset Nat) :
    Option (PacketObject Response) → Blocks → Prop
  | none, blocks => Owes start more blocks
  | some packet, blocks => ∃ this request,
      packet = ⟨this, .target request, .null⟩ ∧
        Owes start (requested this request + more) blocks

section Made

variable {σ Response : Type} {owns : Response → Multiset Nat → Prop}
  {destroy : Response → Prog Blocks Unit} {start : Blocks}
  {more : Multiset Nat} {stopped : Blocks → Prop}

theorem owns_requested (this request : Nat) :
    PacketObject.Owns owns ⟨this, .target request, .null⟩
      (requested this request) :=
  ⟨{request}, 0, rfl, rfl, by rw [zero_add, requested]⟩

/-- Destroying a packet without a response. -/
theorem packetDestroy_unanswered {this : Nat} {request : Pointer Nat}
    {owned : Multiset Nat} (ownsRequest : request.OwnsBlock owned) :
    Contract (Owes start (owned + {this} + more))
      (packetDestroy destroy ⟨this, request, .null⟩)
      (fun _ => Owes start more) stopped := by
  rw [add_assoc]
  apply Contract.bind (destroys_free.release _ _ _ _ _ ownsRequest)
  intro _
  have nothing : Contract (Owes start ({this} + more))
      (Pointer.release destroy .null) (fun _ => Owes start ({this} + more))
      stopped :=
    Contract.pure fun _ owes => owes
  apply Contract.bind nothing
  intro _
  exact free_contract this

/-- What `packetInit` comes to. -/
def Initialised (start : Blocks) (more : Multiset Nat) (this : Nat)
    (outcome : ExitCode × PacketObject Response) (blocks : Blocks) : Prop :=
  (outcome = (.failure, ⟨this, .null, .null⟩) ∧
      Owes start ({this} + more) blocks) ∨
    ∃ request, outcome = (.success, ⟨this, .target request, .null⟩) ∧
      Owes start (requested this request + more) blocks

theorem packetInit_initialised (this : Nat) :
    Contract (Owes start ({this} + more))
      (packetInit (PacketObject.raw this : PacketObject Response))
      (Initialised start more this) stopped := by
  apply Contract.bind requestNew_settles
  intro request
  cases request with
  | none => exact Contract.pure fun _ owes => .inl ⟨rfl, owes⟩
  | some request =>
      apply Contract.pure
      rintro blocks ⟨_, rfl, owes⟩
      rw [← add_assoc] at owes
      exact .inr ⟨request, rfl, owes⟩

theorem packetNew_made :
    Contract (Owes start more) (packetNew destroy) (Made start more)
      stopped := by
  apply Contract.bind malloc_contract
  intro answer
  cases answer with
  | none =>
      apply Contract.pure
      intro blocks owes
      rw [blockOf, zero_add] at owes
      exact owes
  | some this =>
      apply Contract.bind (packetInit_initialised this)
      rintro _ blocks (⟨rfl, owes⟩ | ⟨request, rfl, owes⟩)
      · rw [← zero_add ({this} : Multiset Nat)] at owes
        have destroyed : Contract (Owes start (0 + {this} + more))
            (packetDestroy destroy ⟨this, .null, .null⟩)
            (fun _ => Owes start more) stopped :=
          packetDestroy_unanswered rfl
        have ends : Contract (Owes start more)
            (pure none : Prog Blocks (Option (PacketObject Response)))
            (Made start more) stopped :=
          Contract.pure fun _ owes => owes
        exact Contract.bind destroyed (fun _ => ends) blocks owes
      · exact ⟨this, request, rfl, owes⟩

theorem packetNew_settles :
    Contract (Owes start more) (packetNew destroy)
      (Settled (PacketObject.Owns owns) start more) stopped := by
  apply Contract.weaken packetNew_made _ fun _ holds => holds
  intro answer blocks made
  cases answer with
  | none => exact made
  | some packet =>
      rcases made with ⟨this, request, rfl, owes⟩
      exact ⟨_, owns_requested this request, owes⟩

end Made

end UvgTorrent.InBlocks
