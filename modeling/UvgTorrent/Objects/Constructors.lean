import UvgTorrent.Objects.Packets

/-!
# Constructors under failing allocations

`Socket_new`, `Peer_new`, `Tracker_new` and the packets of the protocols are
written to one pattern.  A constructor settles when it returns an object that
owns everything allocated on the way, or `NULL` with nothing left over.
-/

namespace UvgTorrent.InBlocks

open CProgram CBlocks

/-! ## Sockets -/

structure SocketObject where
  this : Nat
  sockDesc : Pointer Nat
  ip : Pointer Nat
  port : Pointer Nat
  localAddr : Pointer Nat
  remoteAddr : Pointer Nat

def SocketObject.raw (this : Nat) : SocketObject :=
  ⟨this, .junk, .junk, .junk, .junk, .junk⟩

def socketInit (this : SocketObject) :
    Prog Blocks (ExitCode × SocketObject) := do
  let this := { this with
    ip := .null
    port := .null
    sockDesc := .null
    remoteAddr := .null
    localAddr := .null }
  let ip ← malloc
  let this := { this with ip := .ofOption ip }
  match ip with
  | none => pure (.failure, this)
  | some _ =>
      let port ← malloc
      let this := { this with port := .ofOption port }
      match port with
      | none => pure (.failure, this)
      | some _ => pure (.success, this)

/-- `Socket_destroy`, less the `close`. -/
def socketDestroy (this : SocketObject) : Prog Blocks Unit := do
  this.sockDesc.release free
  this.ip.release free
  this.port.release free
  this.localAddr.release free
  this.remoteAddr.release free
  free this.this

def socketNew : Prog Blocks (Option SocketObject) :=
  newObject SocketObject.raw socketInit socketDestroy

/-! ## Peers -/

structure PeerObject where
  this : Nat
  ip : Pointer Nat
  socket : Pointer SocketObject

def PeerObject.raw (this : Nat) : PeerObject :=
  ⟨this, .junk, .junk⟩

/-- `Peer_init`.  The socket is not cleared before the first allocation. -/
def peerInit (this : PeerObject) : Prog Blocks (ExitCode × PeerObject) := do
  let this := { this with ip := .null }
  let ip ← malloc
  let this := { this with ip := .ofOption ip }
  match ip with
  | none => pure (.failure, this)
  | some _ =>
      let socket ← socketNew
      let this := { this with socket := .ofOption socket }
      match socket with
      | none => pure (.failure, this)
      | some _ => pure (.success, this)

def peerDestroy (this : PeerObject) : Prog Blocks Unit := do
  this.socket.release socketDestroy
  this.ip.release free
  free this.this

def peerNew : Prog Blocks (Option PeerObject) :=
  newObject PeerObject.raw peerInit peerDestroy

/-! ## Trackers -/

structure TrackerObject where
  this : Nat
  port : Pointer Nat
  url : Pointer Nat
  ip : Pointer Nat
  trackerSocket : Pointer SocketObject

def TrackerObject.raw (this : Nat) : TrackerObject :=
  ⟨this, .junk, .junk, .junk, .junk⟩

/-- `Tracker_init`.  `url` is not cleared.  The decoded address and the list
of its parts take `parts` blocks, and their allocation succeeds. -/
def trackerInit (parts : Nat) (this : TrackerObject) :
    Prog Blocks (ExitCode × TrackerObject) := do
  let this := { this with
    ip := .null
    port := .null
    trackerSocket := .null }
  let urlPort ← mallocAll parts
  let port ← malloc
  let this := { this with port := .ofOption port }
  match port with
  | none => pure (.failure, this)
  | some _ =>
      let url ← malloc
      let this := { this with url := .ofOption url }
      match url with
      | none => pure (.failure, this)
      | some _ =>
          let ip ← malloc
          let this := { this with ip := .ofOption ip }
          match ip with
          | none => pure (.failure, this)
          | some _ =>
              freeAll urlPort
              pure (.success, this)

def trackerDestroy (this : TrackerObject) : Prog Blocks Unit := do
  this.port.release free
  this.url.release free
  this.ip.release free
  this.trackerSocket.release socketDestroy
  free this.this

def trackerNew (parts : Nat) : Prog Blocks (Option TrackerObject) :=
  newObject TrackerObject.raw (trackerInit parts) trackerDestroy

/-! ## What they own -/

def SocketObject.Owns (this : SocketObject) (owned : Multiset Nat) : Prop :=
  ∃ sockDesc ip port localAddr remoteAddr : Multiset Nat,
    this.sockDesc.OwnsBlock sockDesc ∧ this.ip.OwnsBlock ip ∧
      this.port.OwnsBlock port ∧ this.localAddr.OwnsBlock localAddr ∧
      this.remoteAddr.OwnsBlock remoteAddr ∧
      owned =
        sockDesc + (ip + (port + (localAddr + (remoteAddr + {this.this}))))

def PeerObject.Owns (this : PeerObject) (owned : Multiset Nat) : Prop :=
  ∃ socket ip : Multiset Nat, this.socket.Owns SocketObject.Owns socket ∧
    this.ip.OwnsBlock ip ∧ owned = socket + (ip + {this.this})

def TrackerObject.Owns (this : TrackerObject) (owned : Multiset Nat) :
    Prop :=
  ∃ port url ip trackerSocket : Multiset Nat, this.port.OwnsBlock port ∧
    this.url.OwnsBlock url ∧ this.ip.OwnsBlock ip ∧
      this.trackerSocket.Owns SocketObject.Owns trackerSocket ∧
      owned = port + (url + (ip + (trackerSocket + {this.this})))

section Destroying

theorem socketDestroy_destroys :
    Destroys SocketObject.Owns socketDestroy := by
  rintro this _ start more stopped
    ⟨sockDesc, ip, port, localAddr, remoteAddr, ownsDesc, ownsIp, ownsPort,
      ownsLocal, ownsRemote, rfl⟩
  simp only [add_assoc]
  apply Contract.bind (destroys_free.release _ _ _ _ _ ownsDesc)
  intro _
  apply Contract.bind (destroys_free.release _ _ _ _ _ ownsIp)
  intro _
  apply Contract.bind (destroys_free.release _ _ _ _ _ ownsPort)
  intro _
  apply Contract.bind (destroys_free.release _ _ _ _ _ ownsLocal)
  intro _
  apply Contract.bind (destroys_free.release _ _ _ _ _ ownsRemote)
  intro _
  exact free_contract this.this

theorem peerDestroy_destroys : Destroys PeerObject.Owns peerDestroy := by
  rintro this _ start more stopped ⟨socket, ip, ownsSocket, ownsIp, rfl⟩
  simp only [add_assoc]
  apply Contract.bind
    (socketDestroy_destroys.release _ _ _ _ _ ownsSocket)
  intro _
  apply Contract.bind (destroys_free.release _ _ _ _ _ ownsIp)
  intro _
  exact free_contract this.this

theorem trackerDestroy_destroys :
    Destroys TrackerObject.Owns trackerDestroy := by
  rintro this _ start more stopped
    ⟨port, url, ip, trackerSocket, ownsPort, ownsUrl, ownsIp, ownsSocket,
      rfl⟩
  simp only [add_assoc]
  apply Contract.bind (destroys_free.release _ _ _ _ _ ownsPort)
  intro _
  apply Contract.bind (destroys_free.release _ _ _ _ _ ownsUrl)
  intro _
  apply Contract.bind (destroys_free.release _ _ _ _ _ ownsIp)
  intro _
  apply Contract.bind
    (socketDestroy_destroys.release _ _ _ _ _ ownsSocket)
  intro _
  exact free_contract this.this

end Destroying

section Constructing

variable {start : Blocks} {more : Multiset Nat} {grants : Stream' Bool}
  {stopped : Blocks → Prop}

theorem socketNew_settles :
    Contract (Owes start more) socketNew
      (Settled SocketObject.Owns start more) stopped := by
  apply contract_of_foresees
  intro grants
  apply newObject_settles socketDestroy_destroys
  intro _ this
  apply Contract.bind malloc_foresees
  intro ip
  cases ip with
  | none =>
      apply Contract.pure
      rintro blocks ⟨_, foresees⟩
      have owes := foresees.toOwes
      rw [blockOf, zero_add] at owes
      exact ⟨{this}, ⟨0, 0, 0, 0, 0, rfl, rfl, rfl, rfl, rfl,
        by simp [SocketObject.raw]⟩, owes⟩
  | some ip =>
      apply Contract.bind
        (Contract.strengthen malloc_contract
          fun _ reached => reached.2.toOwes)
      intro port
      cases port with
      | none =>
          apply Contract.pure
          intro blocks owes
          refine ⟨{ip} + {this},
            ⟨0, {ip}, 0, 0, 0, rfl, rfl, rfl, rfl, rfl,
              by simp [SocketObject.raw]⟩, ?_⟩
          rw [add_assoc]
          simpa only [blockOf, zero_add] using owes
      | some port =>
          apply Contract.pure
          intro blocks owes
          refine ⟨{port} + ({ip} + {this}),
            ⟨0, {ip}, {port}, 0, 0, rfl, rfl, rfl, rfl, rfl, ?_⟩, ?_⟩
          · simp only [zero_add]
            exact add_left_comm _ _ _
          · rw [add_assoc, add_assoc]
            exact owes

theorem peerNew_settled
    (granted : grants.get 0 = true → grants.get 1 = true) :
    Contract (Foresees start more grants) peerNew
      (Settled PeerObject.Owns start more) stopped := by
  apply newObject_settles peerDestroy_destroys
  intro peerGranted this
  apply malloc_granted (granted peerGranted)
  intro ip
  apply Contract.bind
    (Contract.strengthen socketNew_settles fun _ foresees => foresees.toOwes)
  intro socket
  have owns : ∀ blocks,
      Settled SocketObject.Owns start ({ip} + ({this} + more)) socket
        blocks →
      ∃ owned, PeerObject.Owns ⟨this, .target ip, .ofOption socket⟩ owned ∧
        Owes start (owned + more) blocks := by
    intro blocks settled
    rcases settled.ofOption with ⟨owned, ownsSocket, owes⟩
    refine ⟨owned + ({ip} + {this}), ⟨owned, {ip}, ownsSocket, rfl, rfl⟩, ?_⟩
    rw [add_assoc, add_assoc]
    exact owes
  cases socket with
  | none => exact Contract.pure owns
  | some socket => exact Contract.pure owns

theorem peerNew_stops (peerGranted : grants.get 0 = true)
    (ipRefused : grants.get 1 = false) :
    Contract (Foresees start more grants) peerNew (fun _ _ => False)
      fun _ => True := by
  apply malloc_granted peerGranted
  intro this
  have init : Contract (Foresees start ({this} + more) grants.tail)
      (peerInit (PeerObject.raw this))
      (fun answer _ => answer = (.failure, ⟨this, .null, .junk⟩))
      fun _ => True :=
    malloc_refused ipRefused (Contract.pure fun _ _ => rfl)
  apply Contract.bind init
  rintro _ final rfl
  trivial

/-- The socket of a peer that got no memory for its address is not written,
and `Peer_destroy` reads it. -/
theorem peerNew_settles_iff (blocks : Blocks) :
    Settles PeerObject.Owns peerNew blocks ↔
      (blocks.grants.get 0 = true → blocks.grants.get 1 = true) := by
  constructor
  · intro settles peerGranted
    by_contra refused
    have ipRefused := Bool.eq_false_of_not_eq_true refused
    exact not_settles (peerNew_stops peerGranted ipRefused)
      (fun _ _ reached => reached.elim) settles
  · intro granted
    exact Settles.of_contract (peerNew_settled granted)

/-! A tracker's address is decoded and split before its port, its host name
and its `ip` are allocated. -/

theorem trackerNew_settled {parts : Nat}
    (granted : grants.get 0 = true →
      grants.get 1 = true ∧ grants.get 2 = true ∧ grants.get 3 = true) :
    Contract (Foresees start more grants) (trackerNew parts)
      (Settled TrackerObject.Owns start more) stopped := by
  apply newObject_settles trackerDestroy_destroys
  intro trackerGranted this
  rcases granted trackerGranted with ⟨portGranted, urlGranted, ipGranted⟩
  apply mallocAll_bind
  intro urlPort _
  apply malloc_granted portGranted
  intro port
  apply malloc_granted urlGranted
  intro url
  apply malloc_granted ipGranted
  intro ip
  have order : ({ip} : Multiset Nat) +
        ({url} + ({port} + (urlPort + ({this} + more)))) =
      urlPort + (({port} + ({url} + ({ip} + (0 + {this})))) + more) := by
    simp only [zero_add]
    ac_rfl
  rw [order]
  apply Contract.bind
    (Contract.strengthen (freeAll_contract urlPort)
      fun _ foresees => foresees.toOwes)
  intro _
  apply Contract.pure
  intro blocks owes
  exact ⟨_, ⟨{port}, {url}, {ip}, 0, rfl, rfl, rfl, rfl, rfl⟩, owes⟩

theorem trackerNew_stops {parts : Nat} (trackerGranted : grants.get 0 = true)
    (portRefused : grants.get 1 = false) :
    Contract (Foresees start more grants) (trackerNew parts)
      (fun _ _ => False) fun _ => True := by
  apply malloc_granted trackerGranted
  intro this
  have init : Contract (Foresees start ({this} + more) grants.tail)
      (trackerInit parts (TrackerObject.raw this))
      (fun answer _ =>
        answer = (.failure, ⟨this, .null, .junk, .null, .null⟩))
      fun _ => True := by
    apply mallocAll_bind
    intro urlPort _
    exact malloc_refused portRefused (Contract.pure fun _ _ => rfl)
  apply Contract.bind init
  rintro _ final rfl
  trivial

theorem trackerNew_leaks {parts : Nat} (trackerGranted : grants.get 0 = true)
    (portGranted : grants.get 1 = true)
    (refused : grants.get 2 = false ∨ grants.get 3 = false) :
    Contract (Foresees start more grants) (trackerNew parts)
      (fun answer blocks => answer = none ∧
        ∃ urlPort : List Nat, urlPort.length = parts ∧
          Owes start (urlPort + more) blocks)
      stopped := by
  apply malloc_granted trackerGranted
  intro this
  have init : Contract (Foresees start ({this} + more) grants.tail)
      (trackerInit parts (TrackerObject.raw this))
      (fun answer blocks => answer.1 = .failure ∧
        ∃ (urlPort : List Nat) (owned : Multiset Nat),
          urlPort.length = parts ∧ answer.2.Owns owned ∧
            Owes start (owned + (urlPort + more)) blocks)
      stopped := by
    apply mallocAll_bind
    intro urlPort size
    apply malloc_granted portGranted
    intro port
    cases urlGranted : grants.get 2 with
    | false =>
        apply malloc_refused urlGranted
        apply Contract.pure
        intro blocks foresees
        refine ⟨rfl, urlPort, _, size,
          ⟨{port}, 0, 0, 0, rfl, rfl, rfl, rfl, rfl⟩, ?_⟩
        have order : {port} + (0 + (0 + (0 + {this}))) + (↑urlPort + more) =
            {port} + (↑urlPort + ({this} + more)) := by
          simp only [zero_add]
          ac_rfl
        exact order ▸ foresees.toOwes
    | true =>
        have ipRefused : grants.get 3 = false := by
          rcases refused with urlRefused | ipRefused
          · rw [urlGranted] at urlRefused
            cases urlRefused
          · exact ipRefused
        apply malloc_granted urlGranted
        intro url
        apply malloc_refused ipRefused
        apply Contract.pure
        intro blocks foresees
        refine ⟨rfl, urlPort, _, size,
          ⟨{port}, {url}, 0, 0, rfl, rfl, rfl, rfl, rfl⟩, ?_⟩
        have order :
            {port} + ({url} + (0 + (0 + {this}))) + (↑urlPort + more) =
              {url} + ({port} + (↑urlPort + ({this} + more))) := by
          simp only [zero_add]
          ac_rfl
        exact order ▸ foresees.toOwes
  apply Contract.bind init
  rintro ⟨code, tracker⟩ blocks ⟨failed, urlPort, owned, size, owns, owes⟩
  cases failed
  have ends : Contract (Owes start (urlPort + more))
      (pure none : Prog Blocks (Option TrackerObject))
      (fun answer blocks => answer = none ∧
        ∃ urlPort : List Nat, urlPort.length = parts ∧
          Owes start (urlPort + more) blocks) stopped :=
    Contract.pure fun _ owes => ⟨rfl, urlPort, size, owes⟩
  exact Contract.bind (trackerDestroy_destroys tracker owned start _ _ owns)
    (fun _ => ends) blocks owes

/-- A tracker whose port finds no memory is destroyed with its host name not
written; without memory for the host name or for the `ip` the decoded
address is lost. -/
theorem trackerNew_settles_iff (parts : Nat) (blocks : Blocks) :
    Settles TrackerObject.Owns (trackerNew (parts + 1)) blocks ↔
      (blocks.grants.get 0 = true →
        blocks.grants.get 1 = true ∧ blocks.grants.get 2 = true ∧
          blocks.grants.get 3 = true) := by
  constructor
  · intro settles trackerGranted
    cases portGranted : blocks.grants.get 1 with
    | false =>
        exact absurd settles
          (not_settles (trackerNew_stops trackerGranted portGranted)
            fun _ _ reached => reached.elim)
    | true =>
        refine ⟨rfl, ?_⟩
        by_contra refused
        rw [not_and_or, Bool.not_eq_true, Bool.not_eq_true] at refused
        refine not_settles
          (trackerNew_leaks trackerGranted portGranted refused) ?_ settles
        rintro _ final ⟨rfl, urlPort, size, leaks⟩ settled
        have same : (urlPort : Multiset Nat) + 0 + blocks.live =
            0 + blocks.live :=
          leaks.live.symm.trans settled.live
        have none : urlPort = [] := by
          simpa using same
        rw [none] at size
        cases size
  · intro granted
    exact Settles.of_contract (trackerNew_settled granted)

/-- Whichever allocations fail, sockets and packets leave nothing behind;
peers and trackers fail to do so exactly after these refusals. -/
theorem constructors_settle {Response : Type}
    (owns : Response → Multiset Nat → Prop)
    (destroy : Response → Prog Blocks Unit) (parts : Nat) (blocks : Blocks) :
    Settles SocketObject.Owns socketNew blocks ∧
      Settles (PacketObject.Owns owns) (packetNew destroy) blocks ∧
      (Settles PeerObject.Owns peerNew blocks ↔
        (blocks.grants.get 0 = true → blocks.grants.get 1 = true)) ∧
      (Settles TrackerObject.Owns (trackerNew (parts + 1)) blocks ↔
        (blocks.grants.get 0 = true →
          blocks.grants.get 1 = true ∧ blocks.grants.get 2 = true ∧
            blocks.grants.get 3 = true)) := by
  have fromOwes : ∀ current, Foresees blocks 0 blocks.grants current →
      Owes blocks 0 current :=
    fun _ foresees => foresees.toOwes
  exact ⟨Settles.of_contract (Contract.strengthen socketNew_settles fromOwes),
    Settles.of_contract (Contract.strengthen packetNew_settles fromOwes),
    peerNew_settles_iff blocks, trackerNew_settles_iff parts blocks⟩

end Constructing

end UvgTorrent.InBlocks
