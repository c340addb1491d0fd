import Mathlib.Data.Stream.Defs
import UvgTorrent.DataStructures.Linkedlist
import UvgTorrent.Library.Allocation
import UvgTorrent.Library.Chain
import UvgTorrent.Library.Fifo
import UvgTorrent.Library.MachineInt
import UvgTorrent.Library.Program

/-!
# Linked lists in memory

The nodes of a list lie in memory and are reached through pointers.  `end` is
not cleared when the last node is popped, so it may point to a node that has
left the list.
-/

namespace UvgTorrent.InMemory

open CProgram MachineInt Allocation LinkedChain Fifo

/-- A node.  `value` is the block its pointer leads to, and `none` is
`NULL`. -/
structure Linkednode where
  value : Option (List UInt8)
  size : Nat
  next : Option Nat
  deriving DecidableEq, Repr

/-- The nodes in memory, and whether each allocation to come succeeds. -/
structure Memory where
  node : Nat → Option Linkednode
  fresh : Nat
  unused : ∀ address, fresh ≤ address → node address = none
  grants : Stream' Bool

structure Linkedlist where
  head : Option Nat
  endNode : Option Nat
  count : Int
  deriving DecidableEq, Repr

namespace Memory

def empty (grants : Stream' Bool) : Memory where
  node := fun _ => none
  fresh := 0
  unused := fun _ _ => rfl
  grants := grants

/-- A new node at a fresh address. -/
def place (memory : Memory) (node : Linkednode) : Memory where
  node := fun address =>
    if address = memory.fresh then some node else memory.node address
  fresh := memory.fresh + 1
  unused := by
    intro address above
    rw [if_neg (by omega)]
    exact memory.unused address (by omega)
  grants := memory.grants

/-- Store into the fields of a node. -/
def write (memory : Memory) (target : Nat)
    (change : Linkednode → Linkednode) : Memory where
  node := fun address =>
    if address = target then
      (memory.node address).map change
    else
      memory.node address
  fresh := memory.fresh
  unused := by
    intro address above
    split
    · rw [memory.unused address above]
      rfl
    · exact memory.unused address above
  grants := memory.grants

/-- `free` on a node. -/
def release (memory : Memory) (target : Nat) : Memory where
  node := fun address =>
    if address = target then none else memory.node address
  fresh := memory.fresh
  unused := by
    intro address above
    split
    · rfl
    · exact memory.unused address above
  grants := memory.grants

/-- An allocation has been decided. -/
def spend (memory : Memory) : Memory :=
  { memory with grants := memory.grants.tail }

/-- What a node holds, and its next node. -/
def load (memory : Memory) (address : Nat) :
    Option ((Option (List UInt8) × Nat) × Option Nat) :=
  (memory.node address).map fun node => ((node.value, node.size), node.next)

end Memory

/-- Whether the next allocation succeeds. -/
def calloc : Prog Memory Bool := do
  let memory ← getState
  setState memory.spend
  pure memory.grants.head

/-- Read a node through a pointer. -/
def derefNode (pointer : Option Nat) : Prog Memory Linkednode := do
  let memory ← getState
  match pointer with
  | none => liftExec (.error .nullPointer)
  | some address =>
      match memory.node address with
      | none => liftExec (.error .readPast)
      | some node => pure node

/-- Store into a node through a pointer. -/
def storeNode (pointer : Option Nat) (change : Linkednode → Linkednode) :
    Prog Memory Unit := do
  let memory ← getState
  match pointer with
  | none => liftExec (.error .nullPointer)
  | some address =>
      match memory.node address with
      | none => liftExec (.error .writePast)
      | some _ => setState (memory.write address change)

/-! ## Nodes -/

/-- `Linkednode_set`. -/
def linkednodeSet (this : Option Nat) (value : List UInt8) :
    Prog Memory ExitCode := do
  storeNode this fun node => { node with value := none, size := value.length }
  match ← calloc with
  | true =>
      storeNode this fun node => { node with value := some (value ++ [0]) }
      pure .success
  | false => pure .failure

/-- `Linkednode_new` with `Linkednode_init`; `none` is `NULL`. -/
def linkednodeNew (value : List UInt8) : Prog Memory (Option Nat) := do
  match ← calloc with
  | true =>
      let memory ← getState
      let node := memory.fresh
      setState (memory.place ⟨none, 0, none⟩)
      match ← linkednodeSet (some node) value with
      | .success => pure (some node)
      | .failure =>
          -- the node has neither a value nor a next node to be destroyed
          modifyState fun memory => memory.release node
          pure none
  | false => pure none

/-! ## Lists -/

/-- `Linkedlist_init`. -/
def linkedlistNew : Linkedlist :=
  ⟨none, none, 0⟩

/-- `Linkedlist_append`.  In an empty list the new node is first linked to
itself. -/
def linkedlistAppend (this : Linkedlist) (value : List UInt8) :
    Prog Memory (ExitCode × Linkedlist) := do
  match ← linkednodeNew value with
  | none => pure (.failure, this)
  | some node =>
      let this : Linkedlist :=
        if this.head = none then
          { this with head := some node, endNode := some node }
        else
          this
      storeNode this.endNode fun last => { last with next := some node }
      let this : Linkedlist := { this with endNode := some node }
      storeNode this.endNode fun last => { last with next := none }
      pure (.success, { this with count := toInt32 (this.count + 1) })

/-- `Linkedlist_pop`. -/
def linkedlistPop (this : Linkedlist) :
    Prog Memory (Option Nat × Linkedlist) := do
  match this.head with
  | none => pure (none, this)
  | some result =>
      let node ← derefNode this.head
      storeNode (some result) fun node => { node with next := none }
      pure (some result,
        { this with head := node.next, count := toInt32 (this.count - 1) })

/-! ## One access -/

/-- Every allocation to come succeeds. -/
def Granting (memory : Memory) : Prop :=
  ∀ index, memory.grants.get index = true

/-- A node that holds a value. -/
def Linkednode.holding (value : List UInt8) : Linkednode :=
  ⟨some (value ++ [0]), value.length, none⟩

section Access

variable {memory : Memory} {address : Nat} {node : Linkednode}

@[simp]
theorem Memory.write_self (present : memory.node address = some node)
    (change : Linkednode → Linkednode) :
    (memory.write address change).node address = some (change node) := by
  simp [Memory.write, present]

@[simp]
theorem Memory.write_other {target : Nat} (different : address ≠ target)
    (change : Linkednode → Linkednode) :
    (memory.write target change).node address = memory.node address :=
  if_neg different

theorem Memory.place_self (memory : Memory) (node : Linkednode) :
    (memory.place node).node memory.fresh = some node :=
  if_pos rfl

theorem Memory.place_other (different : address ≠ memory.fresh)
    (node : Linkednode) :
    (memory.place node).node address = memory.node address :=
  if_neg different

theorem derefNode_from (present : memory.node address = some node) :
    (derefNode (some address)).from memory = (.ok node, memory) := by
  simp only [derefNode, bind_from, getState_from, present, pure_from]

theorem storeNode_from (present : memory.node address = some node)
    (change : Linkednode → Linkednode) :
    (storeNode (some address) change).from memory =
      (.ok (), memory.write address change) := by
  simp only [storeNode, bind_from, getState_from, present, setState_from]

theorem calloc_from (memory : Memory) :
    calloc.from memory = (.ok memory.grants.head, memory.spend) :=
  rfl

theorem Granting.head (granting : Granting memory) :
    memory.grants.head = true :=
  granting 0

theorem Granting.spend (granting : Granting memory) :
    Granting memory.spend :=
  fun index => granting (index + 1)

end Access

/-- The decisions that memory carries. -/
def Memory.allocator : Allocator Memory where
  decisions := Memory.grants
  granting := fun memory grants => { memory with grants := grants }
  decisions_granting := fun _ _ => rfl
  granting_decisions := fun _ => rfl

/-! ## Nodes with their values -/

section Nodes

variable {memory : Memory}

/-- What `Linkednode_set` leaves. -/
structure SetsValue (memory : Memory) (this : Nat) (next : Option Nat)
    (value : List UInt8) (code : ExitCode) (after : Memory) : Prop where
  fresh : after.fresh = memory.fresh
  kept : ∀ other, other ≠ this → after.node other = memory.node other
  stored : code = .success →
    after.node this = some { Linkednode.holding value with next := next }
  granted : Granting memory → code = .success ∧ Granting after

/-- What `Linkednode_set` makes of a node, as its block is allocated or
not. -/
theorem linkednodeSet_exact {this : Nat} {node : Linkednode}
    (present : memory.node this = some node) (value : List UInt8) :
    ∃ after, (linkednodeSet (some this) value).from memory =
        (.ok (if memory.grants.head then .success else .failure), after) ∧
      after.fresh = memory.fresh ∧ after.grants = memory.grants.tail ∧
      after.node this = some
        ⟨if memory.grants.head then some (value ++ [0]) else none,
          value.length, node.next⟩ ∧
      ∀ other, other ≠ this → after.node other = memory.node other := by
  let cleared := memory.write this
    fun node => { node with value := none, size := value.length }
  have present' : cleared.spend.node this =
      some { node with value := none, size := value.length } :=
    Memory.write_self present _
  have kept : ∀ other, other ≠ this →
      cleared.spend.node other = memory.node other :=
    fun other different => Memory.write_other different _
  cases granted : memory.grants.head with
  | true =>
      refine ⟨cleared.spend.write this
        fun node => { node with value := some (value ++ [0]) }, ?_, rfl, rfl,
        Memory.write_self present' _, ?_⟩
      · rw [linkednodeSet, bind_from_ok (storeNode_from present _),
          bind_from_ok (calloc_from _)]
        show (match memory.grants.head with
          | true => _
          | false => _ : Prog Memory ExitCode).from _ = _
        rw [granted]
        exact bind_from_ok (storeNode_from present' _) _
      · intro other different
        exact (Memory.write_other different _).trans (kept other different)
  | false =>
      refine ⟨cleared.spend, ?_, rfl, rfl, present', kept⟩
      rw [linkednodeSet, bind_from_ok (storeNode_from present _),
        bind_from_ok (calloc_from _)]
      show (match memory.grants.head with
        | true => _
        | false => _ : Prog Memory ExitCode).from _ = _
      rw [granted]
      rfl

theorem linkednodeSet_from {this : Nat} {node : Linkednode}
    (present : memory.node this = some node) (value : List UInt8) :
    ∃ code after, (linkednodeSet (some this) value).from memory =
        (.ok code, after) ∧
      SetsValue memory this node.next value code after := by
  rcases linkednodeSet_exact present value with
    ⟨after, ran, fresh, grants, stored, kept⟩
  refine ⟨_, after, ran, fresh, kept, ?_, ?_⟩
  · intro succeeded
    cases granted : memory.grants.head with
    | true =>
        rw [granted] at stored
        exact stored
    | false =>
        rw [granted] at succeeded
        cases succeeded
  · intro granting
    rw [granting.head, Granting, grants]
    exact ⟨rfl, granting.spend⟩

/-- What `Linkednode_new` leaves. -/
structure MakesNode (memory : Memory) (value : List UInt8)
    (answer : Option Nat) (after : Memory) : Prop where
  kept : ∀ other, other ≠ memory.fresh →
    after.node other = memory.node other
  grew : memory.fresh ≤ after.fresh
  made : answer = none ∨ answer = some memory.fresh ∧
    after.node memory.fresh = some (.holding value) ∧
    memory.fresh < after.fresh
  granted : Granting memory → answer ≠ none ∧ Granting after

/-- A new node lies at a fresh address and holds its value. -/
theorem linkednodeNew_from (memory : Memory) (value : List UInt8) :
    ∃ answer after, (linkednodeNew value).from memory =
        (.ok answer, after) ∧ MakesNode memory value answer after := by
  cases granted : memory.grants.head with
  | false =>
      refine ⟨none, memory.spend, ?_, fun _ _ => rfl, Nat.le_refl _,
        .inl rfl, ?_⟩
      · rw [linkednodeNew, bind_from_ok (calloc_from _), granted]
        rfl
      · intro granting
        rw [granting.head] at granted
        cases granted
  | true =>
      rcases linkednodeSet_from
        (memory.spend.place_self ⟨none, 0, none⟩) value
        with ⟨code, after, ran, sets⟩
      have kept : ∀ other, other ≠ memory.fresh →
          after.node other = memory.node other := fun other different =>
        (sets.kept other different).trans (Memory.place_other different _)
      have grew : after.fresh = memory.fresh + 1 := sets.fresh
      cases code with
      | success =>
          refine ⟨some memory.fresh, after, ?_, kept, by omega,
            .inr ⟨rfl, sets.stored rfl, by omega⟩, fun granting =>
              ⟨Option.some_ne_none _, (sets.granted granting.spend).2⟩⟩
          rw [linkednodeNew, bind_from_ok (calloc_from _), granted]
          simp only [bind_from, getState_from, setState_from, ran]
          rfl
      | failure =>
          refine ⟨none, after.release memory.fresh, ?_, ?_, ?_, .inl rfl, ?_⟩
          · rw [linkednodeNew, bind_from_ok (calloc_from _), granted]
            simp only [bind_from, getState_from, setState_from, ran]
            rfl
          · intro other different
            exact (if_neg different).trans (kept other different)
          · exact grew ▸ Nat.le_succ _
          · intro granting
            cases (sets.granted granting.spend).1

/-- A new node asks for itself and for its block. -/
theorem linkednodeNew_spends {value : List UInt8} {answer : Option Nat}
    {after : Memory}
    (ran : (linkednodeNew value).from memory = (.ok answer, after)) :
    after.grants =
        memory.grants.drop (attempts 2 memory.grants).length ∧
      (answer = none ↔ false ∈ attempts 2 memory.grants) := by
  rw [linkednodeNew, bind_from_ok (calloc_from _)] at ran
  cases first : memory.grants.head with
  | false =>
      rw [first] at ran
      cases ran
      rw [attempts_refused first]
      exact ⟨rfl, iff_of_true rfl List.mem_cons_self⟩
  | true =>
      rcases linkednodeSet_exact
        (memory.spend.place_self ⟨none, 0, none⟩) value with
        ⟨middle, set, _, grants, _⟩
      have spent : middle.grants = memory.grants.tail.tail := grants
      have second : (memory.spend.place ⟨none, 0, none⟩).grants.head =
          memory.grants.tail.head := rfl
      rw [first] at ran
      simp only [bind_from, getState_from, setState_from, set] at ran
      rw [second] at ran
      rw [attempts_granted first]
      cases granted : memory.grants.tail.head with
      | false =>
          rw [granted] at ran
          cases ran
          rw [attempts_refused granted]
          exact ⟨spent, iff_of_true rfl (by decide)⟩
      | true =>
          rw [granted] at ran
          cases ran
          rw [attempts_granted granted, attempts]
          exact ⟨spent, iff_of_false (Option.some_ne_none _) (by decide)⟩

/-- A new node that is there has both. -/
theorem linkednodeNew_granted {value : List UInt8} {node : Nat}
    {after : Memory}
    (made : (linkednodeNew value).from memory = (.ok (some node), after)) :
    after.grants =
        memory.grants.drop (attempts 2 memory.grants).length ∧
      (ExitCode.success = .failure ↔
        false ∈ attempts 2 memory.grants) := by
  have spends := linkednodeNew_spends made
  refine ⟨spends.1, iff_of_false ?_ ?_⟩
  · intro same
    cases same
  · exact mt spends.2.mpr (Option.some_ne_none node)

end Nodes

/-! ## What a list spans -/

/-- What a node of a list is: its address, the block it holds, and its
size. -/
abbrev Cell : Type :=
  Nat × Option (List UInt8) × Nat

/-- The cells met from the head of a list on. -/
structure Spans (memory : Memory) (this : Linkedlist)
    (cells : List Cell) : Prop where
  chain : Chain memory.load this.head cells
  endNode : this.head ≠ none → this.endNode = cells.getLast?.map Prod.fst

/-- A cell whose node holds a value. -/
def Cell.holding (address : Nat) (value : List UInt8) : Cell :=
  (address, some (value ++ [0]), value.length)

section Cells

variable {memory : Memory} {this : Linkedlist} {cells : List Cell}

theorem Memory.load_of_node {address : Nat} {node : Linkednode}
    (present : memory.node address = some node) :
    memory.load address = some ((node.value, node.size), node.next) := by
  rw [Memory.load, present]
  rfl

theorem Memory.load_congr {other : Memory} {address : Nat}
    (same : other.node address = memory.node address) :
    other.load address = memory.load address :=
  congrArg _ same

theorem Memory.lt_fresh {address : Nat} {node : Linkednode}
    (present : memory.node address = some node) :
    address < memory.fresh := by
  by_contra above
  rw [memory.unused address (Nat.not_lt.mp above)] at present
  cases present

theorem Memory.node_of_load {address : Nat} {block : Option (List UInt8)}
    {size : Nat} {next : Option Nat}
    (loaded : memory.load address = some ((block, size), next)) :
    memory.node address = some ⟨block, size, next⟩ := by
  rcases Option.map_eq_some_iff.mp loaded with ⟨node, present, fields⟩
  cases fields
  exact present

theorem Spans.present (spans : Spans memory this cells) {cell : Cell}
    (member : cell ∈ cells) :
    ∃ next, memory.node cell.1 = some ⟨cell.2.1, cell.2.2, next⟩ := by
  rcases spans.chain.load_member member with ⟨next, loaded⟩
  exact ⟨next, Memory.node_of_load loaded⟩

theorem Spans.lt_fresh (spans : Spans memory this cells) {cell : Cell}
    (member : cell ∈ cells) : cell.1 < memory.fresh := by
  rcases spans.present member with ⟨next, present⟩
  exact Memory.lt_fresh present

theorem Spans.empty_iff (spans : Spans memory this cells) :
    this.head = none ↔ cells = [] := by
  rw [spans.chain.first_eq]
  cases cells with
  | nil => simp
  | cons cell rest => simp

/-- A list is not affected by changes to other nodes. -/
theorem Spans.frame {other : Memory} (spans : Spans memory this cells)
    (unchanged : ∀ cell ∈ cells, other.node cell.1 = memory.node cell.1) :
    Spans other this cells where
  chain := spans.chain.frame fun earlier member =>
    Memory.load_congr (unchanged earlier member)
  endNode := spans.endNode

/-- The two stores at the end of an append, which also cancel the link of a
node to itself. -/
theorem link_behind {last node : Nat} {lastNode : Linkednode}
    {value : List UInt8}
    (placed : memory.node node = some (.holding value))
    (lastPresent : memory.node last = some lastNode) :
    ∃ after, (∀ {α : Type} (answer : α), (do
        storeNode (some last) fun last => { last with next := some node }
        storeNode (some node) fun last => { last with next := none }
        pure answer : Prog Memory α).from memory = (.ok answer, after)) ∧
      after.fresh = memory.fresh ∧ after.grants = memory.grants ∧
      after.node node = some (.holding value) ∧
      (last ≠ node →
        after.node last = some { lastNode with next := some node }) ∧
      ∀ other, other ≠ last → other ≠ node →
        after.node other = memory.node other := by
  let linked := memory.write last
    fun last => { last with next := some node }
  obtain ⟨next, still⟩ : ∃ next, linked.node node =
      some { Linkednode.holding value with next := next } := by
    by_cases same : node = last
    · subst same
      exact ⟨some node, Memory.write_self placed _⟩
    · exact ⟨none, (Memory.write_other same _).trans placed⟩
  refine ⟨linked.write node fun last => { last with next := none }, ?_, rfl,
    rfl, Memory.write_self still _, ?_, ?_⟩
  · intro α answer
    rw [bind_from_ok (storeNode_from lastPresent _),
      bind_from_ok (storeNode_from still _), pure_from]
  · intro different
    rw [Memory.write_other different]
    exact Memory.write_self lastPresent _
  · intro other notLast notNode
    rw [Memory.write_other notNode, Memory.write_other notLast]

/-- What `Linkedlist_append` leaves of the cells of a list. -/
structure AppendsCell (memory : Memory) (this : Linkedlist)
    (cells : List Cell) (value : List UInt8) (code : ExitCode)
    (that : Linkedlist) (after : Memory) : Prop where
  kept : ∀ other, other ≠ memory.fresh → other ∉ cells.map Prod.fst →
    after.node other = memory.node other
  grew : memory.fresh ≤ after.fresh
  outcome : code = .failure ∧ that = this ∧
      (∀ other, other ≠ memory.fresh →
        after.node other = memory.node other) ∨
    code = .success ∧ that.count = toInt32 (this.count + 1) ∧
      memory.fresh < after.fresh ∧
      Spans after that (cells ++ [.holding memory.fresh value])
  granted : Granting memory → code = .success ∧ Granting after
  spent : after.grants =
    memory.grants.drop (attempts 2 memory.grants).length
  refused : code = .failure ↔ false ∈ attempts 2 memory.grants

section Append

variable {middle : Memory} {value : List UInt8}
  (made : (linkednodeNew value).from memory =
    (.ok (some memory.fresh), middle))
  (makes : MakesNode memory value (some memory.fresh) middle)
  (placed : middle.node memory.fresh = some (.holding value))
  (fewer : memory.fresh < middle.fresh)

include made makes placed fewer

/-- In an empty list the new node is the first one. -/
theorem appends_first (spans : Spans memory this []) :
    ∃ that after, (linkedlistAppend this value).from memory =
        (.ok (.success, that), after) ∧
      AppendsCell memory this [] value .success that after := by
  have empty := spans.empty_iff.mpr rfl
  have spends := linkednodeNew_granted made
  rcases link_behind placed placed with
    ⟨after, stores, fresh, grants, stored, -, others⟩
  refine ⟨⟨some memory.fresh, some memory.fresh, _⟩, after, ?_,
    ?_, fresh ▸ makes.grew, .inr ⟨rfl, rfl, fresh ▸ fewer, ?_, ?_⟩, ?_,
    grants.trans spends.1, spends.2⟩
  · rw [linkedlistAppend, bind_from_ok made]
    simp only [empty, ↓reduceIte]
    exact stores _
  · intro other different _
    exact (others other different different).trans
      (makes.kept other different)
  · exact .cons (Memory.load_of_node stored) chain_nil
  · exact fun _ => rfl
  · intro granting
    refine ⟨rfl, ?_⟩
    rw [Granting, grants]
    exact (makes.granted granting).2

/-- Otherwise it is linked behind the last node. -/
theorem appends_behind {front : List Cell} {last : Cell}
    (spans : Spans memory this (front ++ [last])) :
    ∃ that after, (linkedlistAppend this value).from memory =
        (.ok (.success, that), after) ∧
      AppendsCell memory this (front ++ [last]) value .success that
        after := by
  have survives : ∀ cell ∈ front ++ [last],
      middle.node cell.1 = memory.node cell.1 := fun cell member =>
    makes.kept cell.1 (Nat.ne_of_lt (spans.lt_fresh member))
  have member : last ∈ front ++ [last] := List.mem_append_right _ (.head _)
  have nonempty : this.head ≠ none := by
    rw [Ne, spans.empty_iff]
    simp
  have isLast : this.endNode = some last.1 := by
    rw [spans.endNode nonempty, List.getLast?_append]
    rfl
  rcases spans.present member with ⟨next, present⟩
  have spends := linkednodeNew_granted made
  have different : last.1 ≠ memory.fresh :=
    Nat.ne_of_lt (spans.lt_fresh member)
  rcases link_behind placed ((survives last member).trans present) with
    ⟨after, stores, fresh, grants, stored, behind, others⟩
  refine ⟨⟨this.head, some memory.fresh, _⟩, after, ?_, ?_,
    fresh ▸ makes.grew, .inr ⟨rfl, rfl, fresh ▸ fewer, ?_, ?_⟩, ?_,
    grants.trans spends.1, spends.2⟩
  · rw [linkedlistAppend, bind_from_ok made]
    simp only [nonempty, isLast, ↓reduceIte]
    exact stores _
  · intro other notFresh outside
    have notLast : other ≠ last.1 := by
      rintro rfl
      exact outside (List.mem_map_of_mem member)
    exact (others other notLast notFresh).trans (makes.kept other notFresh)
  · rw [List.append_assoc]
    apply spans.chain.snoc (Memory.load_of_node (behind different))
      (Memory.load_of_node stored)
    intro earlier inFront
    have inside := List.mem_append_left [last] inFront
    have notFresh : earlier.1 ≠ memory.fresh :=
      Nat.ne_of_lt (spans.lt_fresh inside)
    have notLast : earlier.1 ≠ last.1 := by
      have distinct := spans.chain.nodup
      rw [List.map_append, List.nodup_append] at distinct
      exact distinct.2.2 _ (List.mem_map_of_mem inFront) _ (.head _)
    exact Memory.load_congr
      ((others _ notLast notFresh).trans (survives earlier inside))
  · intro _
    rw [List.getLast?_append]
    rfl
  · intro granting
    refine ⟨rfl, ?_⟩
    rw [Granting, grants]
    exact (makes.granted granting).2

end Append

theorem linkedlistAppend_spans (spans : Spans memory this cells)
    (value : List UInt8) :
    ∃ code that after, (linkedlistAppend this value).from memory =
        (.ok (code, that), after) ∧
      AppendsCell memory this cells value code that after := by
  rcases linkednodeNew_from memory value with ⟨answer, middle, made, makes⟩
  rcases makes.made with rfl | ⟨rfl, placed, fewer⟩
  · have spends := linkednodeNew_spends made
    refine ⟨.failure, this, middle, ?_, fun other different _ =>
      makes.kept other different, makes.grew,
      .inl ⟨rfl, rfl, makes.kept⟩, fun granting =>
        absurd rfl (makes.granted granting).1, spends.1,
      iff_of_true rfl (spends.2.mp rfl)⟩
    rw [linkedlistAppend, bind_from_ok made]
    rfl
  · rcases List.eq_nil_or_concat cells with rfl | ⟨front, last, rfl⟩
    · exact ⟨_, appends_first made makes placed fewer spans⟩
    · rw [List.concat_eq_append] at spans ⊢
      exact ⟨_, appends_behind made makes placed fewer spans⟩

/-- What is popped is the first node, cut off from the list. -/
theorem linkedlistPop_spans {first : Cell}
    (spans : Spans memory this (first :: cells)) :
    ∃ that after, (linkedlistPop this).from memory =
        (.ok (some first.1, that), after) ∧
      Spans after that cells ∧ that.count = toInt32 (this.count - 1) ∧
      after.fresh = memory.fresh ∧ after.grants = memory.grants ∧
      after.node first.1 = some ⟨first.2.1, first.2.2, none⟩ ∧
      ∀ other, other ≠ first.1 → after.node other = memory.node other := by
  rcases spans.chain with ⟨isFirst, next, loaded, further⟩
  have present := Memory.node_of_load loaded
  refine ⟨⟨next, this.endNode, toInt32 (this.count - 1)⟩,
    memory.write first.1 fun node => { node with next := none }, ?_,
    ⟨?_, ?_⟩, rfl, rfl, rfl, Memory.write_self present _, fun other =>
      (Memory.write_other · _)⟩
  · rw [linkedlistPop, isFirst]
    show ((derefNode (some first.1)) >>= _).from memory = _
    rw [bind_from_ok (derefNode_from present)]
    exact bind_from_ok (storeNode_from present _) _
  · apply further.frame
    intro later member
    have distinct := spans.chain.nodup
    rw [List.map_cons, List.nodup_cons] at distinct
    have different : later.1 ≠ first.1 := by
      intro same
      exact distinct.1 (same ▸ List.mem_map_of_mem member)
    exact Memory.load_congr (Memory.write_other different _)
  · intro nonempty
    have isEnd := spans.endNode (by rw [isFirst]; exact Option.some_ne_none _)
    cases cells with
    | nil =>
        exact absurd further nonempty
    | cons second rest =>
        exact isEnd

end Cells

/-! ## What a list holds -/

/-- A node of a list: its address, and the value and the size it holds. -/
def cell (node : Nat × List UInt8) :
    Nat × Option (List UInt8) × Nat :=
  (node.1, some (node.2 ++ [0]), node.2.length)

/-- The nodes of a list with their values, in order. -/
structure Linked (memory : Memory) (this : Linkedlist)
    (nodes : List (Nat × List UInt8)) : Prop where
  chain : Chain memory.load this.head (nodes.map cell)
  endNode : this.head ≠ none → this.endNode = nodes.getLast?.map Prod.fst

/-- The nodes of a list, and their number in `count`. -/
structure Holds (memory : Memory) (this : Linkedlist)
    (nodes : List (Nat × List UInt8)) : Prop
    extends Linked memory this nodes where
  count : this.count = nodes.length

section Lists

variable {memory : Memory} {this : Linkedlist}
  {nodes : List (Nat × List UInt8)}

theorem linkedlistNew_holds (memory : Memory) :
    Holds memory linkedlistNew [] where
  chain := chain_nil
  endNode := fun nonempty => absurd rfl nonempty
  count := rfl

theorem cells_addresses (nodes : List (Nat × List UInt8)) :
    (nodes.map cell).map Prod.fst = nodes.map Prod.fst := by
  rw [List.map_map]
  rfl

/-- The nodes of a list are cells that hold values. -/
theorem linked_iff :
    Linked memory this nodes ↔ Spans memory this (nodes.map cell) := by
  have last : (nodes.map cell).getLast?.map Prod.fst =
      nodes.getLast?.map Prod.fst := by
    rw [List.getLast?_map, Option.map_map]
    rfl
  constructor
  · intro linked
    exact ⟨linked.chain, last ▸ linked.endNode⟩
  · intro spans
    exact ⟨spans.chain, last ▸ spans.endNode⟩

theorem Linked.empty_iff (linked : Linked memory this nodes) :
    this.head = none ↔ nodes = [] := by
  rw [(linked_iff.mp linked).empty_iff, List.map_eq_nil_iff]

theorem Linked.frame {other : Memory} (linked : Linked memory this nodes)
    (unchanged : ∀ node ∈ nodes, other.node node.1 = memory.node node.1) :
    Linked other this nodes := by
  refine linked_iff.mpr ((linked_iff.mp linked).frame ?_)
  intro earlier member
  rcases List.mem_map.mp member with ⟨node, nodeMember, rfl⟩
  exact unchanged node nodeMember

/-- What `Linkedlist_append` leaves. -/
structure Appends (memory : Memory) (this : Linkedlist)
    (nodes : List (Nat × List UInt8)) (value : List UInt8)
    (code : ExitCode) (that : Linkedlist) (after : Memory) : Prop where
  kept : ∀ other, other ≠ memory.fresh → other ∉ nodes.map Prod.fst →
    after.node other = memory.node other
  grew : memory.fresh ≤ after.fresh
  outcome : code = .failure ∧ that = this ∧ Linked after this nodes ∨
    code = .success ∧ that.count = toInt32 (this.count + 1) ∧
      memory.fresh < after.fresh ∧
      Linked after that (nodes ++ [(memory.fresh, value)])
  granted : Granting memory → code = .success ∧ Granting after

theorem linkedlistAppend_from (linked : Linked memory this nodes)
    (value : List UInt8) :
    ∃ code that after, (linkedlistAppend this value).from memory =
        (.ok (code, that), after) ∧
      Appends memory this nodes value code that after := by
  have spans := linked_iff.mp linked
  rcases linkedlistAppend_spans spans value with
    ⟨code, that, after, ran, appends⟩
  refine ⟨code, that, after, ran, ?_, appends.grew, ?_, appends.granted⟩
  · rw [← cells_addresses nodes]
    exact appends.kept
  · rcases appends.outcome with
      ⟨failed, same, kept⟩ | ⟨succeeded, count, fewer, longer⟩
    · refine .inl ⟨failed, same, linked_iff.mpr (spans.frame ?_)⟩
      intro earlier member
      exact kept earlier.1 (Nat.ne_of_lt (spans.lt_fresh member))
    · refine .inr ⟨succeeded, count, fewer, linked_iff.mpr ?_⟩
      rw [List.map_append]
      exact longer

theorem linkedlistAppend_holds (granting : Granting memory)
    (holds : Holds memory this nodes) (small : nodes.length + 1 < 2 ^ 31)
    (value : List UInt8) :
    ∃ that after, (linkedlistAppend this value).from memory =
        (.ok (.success, that), after) ∧ Granting after ∧
      Holds after that (nodes ++ [(memory.fresh, value)]) := by
  rcases linkedlistAppend_from holds.toLinked value with
    ⟨code, that, after, ran, appends⟩
  rcases appends.granted granting with ⟨rfl, still⟩
  rcases appends.outcome with ⟨failed, -⟩ | ⟨-, counted, -, linked⟩
  · cases failed
  · refine ⟨that, after, ran, still, linked, ?_⟩
    rw [counted, holds.count, List.length_append]
    exact toInt32_of_range (by omega) (by omega)

theorem linkedlistPop_empty (empty : this.head = none) :
    (linkedlistPop this).from memory = (.ok (none, this), memory) := by
  simp only [linkedlistPop, empty, pure_from]

theorem linkedlistPop_from {first : Nat × List UInt8}
    (linked : Linked memory this (first :: nodes)) :
    ∃ that after, (linkedlistPop this).from memory =
        (.ok (some first.1, that), after) ∧
      Linked after that nodes ∧ that.count = toInt32 (this.count - 1) ∧
      after.fresh = memory.fresh ∧ after.grants = memory.grants ∧
      after.node first.1 = some (.holding first.2) ∧
      ∀ other, other ≠ first.1 → after.node other = memory.node other := by
  rcases linkedlistPop_spans (linked_iff.mp linked) with
    ⟨that, after, popped, shorter, facts⟩
  exact ⟨that, after, popped, linked_iff.mpr shorter, facts⟩

theorem linkedlistPop_holds {first : Nat × List UInt8}
    (granting : Granting memory)
    (holds : Holds memory this (first :: nodes))
    (small : nodes.length + 1 < 2 ^ 31) :
    ∃ that after, (linkedlistPop this).from memory =
        (.ok (some first.1, that), after) ∧ Granting after ∧
      Holds after that nodes ∧
      after.node first.1 = some (.holding first.2) := by
  rcases linkedlistPop_from holds.toLinked with
    ⟨that, after, ran, linked, counted, -, grants, intact, -⟩
  refine ⟨that, after, ran, ?_, ⟨linked, ?_⟩, intact⟩
  · rw [Granting, grants]
    exact granting
  · rw [counted, holds.count, List.length_cons]
    exact (congrArg toInt32 (by omega)).trans
      (toInt32_of_range (by omega) (by omega))

end Lists

/-- The values of a list, seen from its head. -/
def view (nodes : List (Nat × List UInt8)) :
    UvgTorrent.Linkedlist (List UInt8) :=
  ⟨nodes.map Prod.snd, nodes.length⟩

/-- In memory an append does what it does to the values of the list. -/
theorem linkedlistAppend_refines {memory : Memory} {this : Linkedlist}
    {nodes : List (Nat × List UInt8)} (granting : Granting memory)
    (holds : Holds memory this nodes) (small : nodes.length + 1 < 2 ^ 31)
    (value : List UInt8) :
    ∃ code that after others,
      (linkedlistAppend this value).from memory =
        (.ok (code, that), after) ∧ Holds after that others ∧
      UvgTorrent.linkedlistAppend (view nodes) value =
        (code, view others) := by
  rcases linkedlistAppend_holds granting holds small value with
    ⟨that, after, appended, _, longer⟩
  refine ⟨.success, that, after, _, appended, longer, ?_⟩
  simp [UvgTorrent.linkedlistAppend, view]

/-! ## Whole runs -/

/-- The calls on a list, one after another. -/
def runCalls : List (Call (List UInt8)) → Linkedlist →
    Prog Memory Linkedlist
  | [], this => pure this
  | .append value :: rest, this => do
      let (_, this) ← linkedlistAppend this value
      runCalls rest this
  | .pop :: rest, this => do
      let (_, this) ← linkedlistPop this
      runCalls rest this

theorem runCalls_from {memory : Memory} {this : Linkedlist}
    {nodes : List (Nat × List UInt8)} {calls : List (Call (List UInt8))}
    (granting : Granting memory) (holds : Holds memory this nodes)
    (within : Within (2 ^ 31) (nodes.map Prod.snd) calls) :
    ∃ that after others, (runCalls calls this).from memory =
        (.ok that, after) ∧ Granting after ∧ Holds after that others ∧
      others.map Prod.snd = pending (nodes.map Prod.snd) calls := by
  induction calls generalizing memory this nodes with
  | nil =>
      exact ⟨this, memory, nodes, rfl, granting, holds, rfl⟩
  | cons call rest inductionHypothesis =>
      rcases within with ⟨small, within⟩
      have next := within.now
      cases call with
      | append value =>
          simp only [Fifo.after, List.length_append, List.length_map,
            List.length_singleton] at next
          rcases linkedlistAppend_holds granting holds next value with
            ⟨that, middle, appended, still, longer⟩
          have same : (nodes ++ [(memory.fresh, value)]).map Prod.snd =
              Fifo.after (nodes.map Prod.snd) (.append value) :=
            List.map_append
          rw [← same] at within
          rcases inductionHypothesis still longer within with
            ⟨final, after, others, ran, grantingAfter, held, values⟩
          refine ⟨final, after, others, ?_, grantingAfter, held, ?_⟩
          · rw [runCalls, bind_from_ok appended]
            exact ran
          · rw [values, same, pending_cons]
      | pop =>
          cases nodes with
          | nil =>
              rcases inductionHypothesis granting holds within with
                ⟨final, after, others, ran, grantingAfter, held, values⟩
              refine ⟨final, after, others, ?_, grantingAfter, held, values⟩
              rw [runCalls, bind_from_ok
                (linkedlistPop_empty (holds.empty_iff.mpr rfl))]
              exact ran
          | cons first nodes =>
              have bound : nodes.length + 1 < 2 ^ 31 := by
                simpa using small
              rcases linkedlistPop_holds granting holds bound with
                ⟨that, middle, popped, still, shorter, -⟩
              rcases inductionHypothesis still shorter within with
                ⟨final, after, others, ran, grantingAfter, held, values⟩
              refine ⟨final, after, others, ?_, grantingAfter, held, values⟩
              rw [runCalls, bind_from_ok popped]
              exact ran

/-- A pop answers `NULL` for an empty list and else the first node, whose
value is intact and whose next node is cleared. -/
def PopsOldest (memory : Memory) (this : Linkedlist)
    (nodes : List (Nat × List UInt8)) : Prop :=
  ∃ that after, (linkedlistPop this).from memory =
      (.ok (nodes.head?.map Prod.fst, that), after) ∧
    ∀ first, nodes.head? = some first →
      after.node first.1 = some (.holding first.2)

/-- A list is a queue, whatever calls were made on it.  Its nodes are the
pending values in their order, and `end` is the last of them. -/
theorem linkedlist_fifo {memory : Memory} (granting : Granting memory)
    {calls : List (Call (List UInt8))}
    (within : Within (2 ^ 31) [] calls) :
    ∃ this after nodes,
      (runCalls calls linkedlistNew).from memory = (.ok this, after) ∧
      Holds after this nodes ∧ nodes.map Prod.snd = pending [] calls ∧
      PopsOldest after this nodes := by
  rcases runCalls_from granting (linkedlistNew_holds memory) within with
    ⟨this, after, nodes, ran, still, holds, values⟩
  rw [List.map_nil] at values
  refine ⟨this, after, nodes, ran, holds, values, ?_⟩
  cases nodes with
  | nil =>
      refine ⟨this, after, linkedlistPop_empty (holds.empty_iff.mpr rfl), ?_⟩
      intro first isFirst
      cases isFirst
  | cons first nodes =>
      have bound : nodes.length + 1 < 2 ^ 31 := by
        have few := within.final
        rw [← values] at few
        simpa using few
      rcases linkedlistPop_holds still holds bound with
        ⟨that, final, popped, -, -, intact⟩
      refine ⟨that, final, popped, ?_⟩
      intro other isFirst
      cases isFirst
      exact intact

/-- A list that is emptied and filled again. -/
theorem linkedlist_fifo_refilled :
    ∃ this after nodes,
      (runCalls [.append [1], .pop, .append [2], .append [3], .pop]
        linkedlistNew).from (.empty (Stream'.const true)) =
          (.ok this, after) ∧
      Holds after this nodes ∧ nodes.map Prod.snd = [[3]] ∧
      PopsOldest after this nodes :=
  @linkedlist_fifo (.empty (Stream'.const true)) (fun _ => rfl)
    [.append [1], .pop, .append [2], .append [3], .pop]
    (by simp [Within, Fifo.after])

end UvgTorrent.InMemory
