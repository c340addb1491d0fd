import Mathlib.Algebra.Order.Group.Multiset
import Mathlib.Data.Stream.Init
import UvgTorrent.Library.Program

/-!
# Blocks of memory

`malloc` and `free` on a ledger of the blocks that are allocated.  It is
decided in advance which of the allocations to come succeed.  `Owes` follows a
run: what it has allocated beyond what was there when it began, and that it has
freed nothing else.
-/

namespace CBlocks

open CProgram

/-- `live` are the blocks that are allocated, `wrong` is what was passed to
`free` without being one of them, and `refused` counts the allocations that
failed. -/
structure Blocks where
  fresh : Nat
  live : Multiset Nat
  wrong : List Nat
  refused : Nat
  grants : Stream' Bool

/-- The address of a block; `none` is `NULL`. -/
def malloc : Prog Blocks (Option Nat) := do
  let blocks ← getState
  if blocks.grants.head then
    setState { blocks with
      fresh := blocks.fresh + 1
      live := blocks.fresh ::ₘ blocks.live
      grants := blocks.grants.tail }
    pure (some blocks.fresh)
  else
    setState { blocks with
      refused := blocks.refused + 1
      grants := blocks.grants.tail }
    pure none

def free (block : Nat) : Prog Blocks Unit :=
  modifyState fun blocks =>
    if block ∈ blocks.live then
      { blocks with live := blocks.live.erase block }
    else
      { blocks with wrong := block :: blocks.wrong }

def freeAll : List Nat → Prog Blocks Unit
  | [] => pure ()
  | block :: rest => do
      free block
      freeAll rest

/-- Blocks whose allocation is known to succeed. -/
def mallocAll : Nat → Prog Blocks (List Nat)
  | 0 => pure []
  | count + 1 => do
      let blocks ← getState
      setState { blocks with
        fresh := blocks.fresh + 1
        live := blocks.fresh ::ₘ blocks.live }
      let rest ← mallocAll count
      pure (blocks.fresh :: rest)

/-- A pointer in an object; `junk` is what it holds before it is written. -/
inductive Pointer (Object : Type) where
  | junk
  | null
  | target (object : Object)
  deriving DecidableEq, Repr

/-- The pointer has been written, and what it points to is good. -/
def Pointer.Holds {Object : Type} (good : Object → Prop) :
    Pointer Object → Prop
  | .junk => False
  | .null => True
  | .target object => good object

/-- What `malloc` and constructors return. -/
def Pointer.ofOption {Object : Type} : Option Object → Pointer Object
  | none => .null
  | some object => .target object

/-- The use of a destructor on a pointer that may be `NULL`. -/
def Pointer.release {Object : Type} (destroy : Object → Prog Blocks Unit) :
    Pointer Object → Prog Blocks Unit
  | .junk => liftExec (.error .uninitialised)
  | .null => pure ()
  | .target object => destroy object

/-- What is left of a constructor once its initialisation has answered. -/
def finishObject {Object : Type} (destroy : Object → Prog Blocks Unit) :
    ExitCode × Object → Prog Blocks (Option Object)
  | (.success, object) => pure (some object)
  | (.failure, object) => do
      destroy object
      pure none

/-- A constructor: it allocates the object, initialises it, and destroys it
when that fails. -/
def newObject {Object : Type} (raw : Nat → Object)
    (init : Object → Prog Blocks (ExitCode × Object))
    (destroy : Object → Prog Blocks Unit) :
    Prog Blocks (Option Object) := do
  match ← malloc with
  | none => pure none
  | some this => init (raw this) >>= finishObject destroy

/-! ## What a run owes -/

/-- Since `start` the blocks `more` have been allocated and not freed, and
nothing was freed that was not allocated since. -/
structure Owes (start : Blocks) (more : Multiset Nat) (blocks : Blocks) :
    Prop where
  live : blocks.live = more + start.live
  wrong : blocks.wrong = start.wrong
  refused : start.refused ≤ blocks.refused

/-- The same blocks after so many refusals. -/
def Blocks.missing (blocks : Blocks) (count : Nat) : Blocks :=
  { blocks with refused := blocks.refused + count }

def blockOf : Option Nat → Multiset Nat
  | none => 0
  | some block => {block}

section Owing

variable {start blocks : Blocks} {more : Multiset Nat} {stopped : Blocks → Prop}

theorem missing_missing (blocks : Blocks) (first second : Nat) :
    (blocks.missing first).missing second =
      blocks.missing (first + second) := by
  rw [Blocks.missing, Blocks.missing, Blocks.missing, add_assoc]

theorem Owes.forget {count : Nat}
    (owes : Owes (start.missing count) more blocks) :
    Owes start more blocks :=
  ⟨owes.live, owes.wrong, (Nat.le_add_right _ _).trans owes.refused⟩

/-- The allocations to come are known as well. -/
structure Foresees (start : Blocks) (more : Multiset Nat)
    (grants : Stream' Bool) (blocks : Blocks) : Prop
    extends Owes start more blocks where
  grants : blocks.grants = grants

theorem owes_nothing (blocks : Blocks) : Owes blocks 0 blocks :=
  ⟨(zero_add _).symm, rfl, le_rfl⟩

theorem malloc_foresees {grants : Stream' Bool} :
    Contract (Foresees start more grants) malloc
      (fun answer blocks => answer.isSome = grants.head ∧
        Foresees start (blockOf answer + more) grants.tail blocks)
      stopped := by
  rintro blocks ⟨owes, rfl⟩
  simp only [malloc, bind_from, getState_from]
  cases granted : blocks.grants.head with
  | true =>
      rw [if_pos rfl]
      simp only [bind_from, setState_from, pure_from]
      refine ⟨rfl, ⟨?_, owes.wrong, owes.refused⟩, rfl⟩
      rw [owes.live, blockOf, Multiset.singleton_add, Multiset.cons_add]
  | false =>
      rw [if_neg Bool.false_ne_true]
      simp only [bind_from, setState_from, pure_from]
      refine ⟨rfl, ⟨?_, owes.wrong, Nat.le_succ_of_le owes.refused⟩, rfl⟩
      rw [owes.live, blockOf, zero_add]

section Answers

variable {Answer : Type} {rest : Option Nat → Prog Blocks Answer}
  {after : Answer → Blocks → Prop} {grants : Stream' Bool}

theorem malloc_granted (granted : grants.head = true)
    (continued : ∀ block,
      Contract (Foresees start ({block} + more) grants.tail)
        (rest (some block)) after stopped) :
    Contract (Foresees start more grants) (malloc >>= rest) after
      stopped := by
  apply Contract.bind malloc_foresees
  rintro answer blocks ⟨same, foresees⟩
  cases answer with
  | none =>
      rw [granted] at same
      cases same
  | some block => exact continued block blocks foresees

theorem malloc_refused (refused : grants.head = false)
    (continued : Contract (Foresees start more grants.tail) (rest none)
      after stopped) :
    Contract (Foresees start more grants) (malloc >>= rest) after
      stopped := by
  apply Contract.bind malloc_foresees
  rintro answer blocks ⟨same, foresees⟩
  cases answer with
  | none =>
      rw [blockOf, zero_add] at foresees
      exact continued blocks foresees
  | some block =>
      rw [refused] at same
      cases same

end Answers

theorem contract_of_foresees {Answer : Type} {program : Prog Blocks Answer}
    {after : Answer → Blocks → Prop}
    (contract : ∀ grants,
      Contract (Foresees start more grants) program after stopped) :
    Contract (Owes start more) program after stopped :=
  fun blocks owes => contract blocks.grants blocks ⟨owes, rfl⟩

theorem malloc_contract :
    Contract (Owes start more) malloc
      (fun answer => Owes start (blockOf answer + more)) stopped :=
  contract_of_foresees fun _ =>
    Contract.weaken malloc_foresees
      (fun _ _ reached => reached.2.toOwes) fun _ holds => holds

theorem free_contract (block : Nat) :
    Contract (Owes start ({block} + more)) (free block)
      (fun _ => Owes start more) stopped := by
  intro blocks owes
  have live : blocks.live = block ::ₘ (more + start.live) := by
    rw [owes.live, Multiset.singleton_add, Multiset.cons_add]
  have member : block ∈ blocks.live := by
    rw [live]
    exact Multiset.mem_cons_self _ _
  simp only [free, modifyState_from, if_pos member]
  exact ⟨by rw [live, Multiset.erase_cons_head], owes.wrong, owes.refused⟩

theorem freeAll_contract (blocks : List Nat) :
    Contract (Owes start (blocks + more)) (freeAll blocks)
      (fun _ => Owes start more) stopped := by
  induction blocks with
  | nil =>
      apply Contract.pure
      intro blocks owes
      rw [Multiset.coe_nil, zero_add] at owes
      exact owes
  | cons block rest inductionHypothesis =>
      rw [← Multiset.cons_coe, ← Multiset.singleton_add, add_assoc]
      exact Contract.bind (free_contract block) fun _ => inductionHypothesis

theorem mallocAll_foresees {grants : Stream' Bool} (count : Nat) :
    Contract (Foresees start more grants) (mallocAll count)
      (fun answer blocks => answer.length = count ∧
        Foresees start (answer + more) grants blocks) stopped := by
  induction count generalizing more with
  | zero =>
      apply Contract.pure
      intro blocks foresees
      rw [Multiset.coe_nil, zero_add]
      exact ⟨rfl, foresees⟩
  | succ count inductionHypothesis =>
      intro blocks foresees
      rw [mallocAll, bind_from_ok (getState_from blocks),
        bind_from_ok (setState_from blocks _)]
      refine Contract.bind (@inductionHypothesis ({blocks.fresh} + more))
        (fun rest => Contract.pure ?_) _
        ⟨⟨?_, foresees.wrong, foresees.refused⟩, foresees.grants⟩
      · rintro after ⟨size, foresees⟩
        refine ⟨by rw [List.length_cons, size], ?_⟩
        rw [← Multiset.cons_coe, ← Multiset.singleton_add, add_assoc,
          add_left_comm]
        exact foresees
      · rw [foresees.live, Multiset.singleton_add, Multiset.cons_add]

theorem mallocAll_bind {Answer : Type} {count : Nat}
    {rest : List Nat → Prog Blocks Answer} {grants : Stream' Bool}
    {after : Answer → Blocks → Prop}
    (continued : ∀ allocated : List Nat, allocated.length = count →
      Contract (Foresees start (allocated + more) grants) (rest allocated)
        after stopped) :
    Contract (Foresees start more grants) (mallocAll count >>= rest) after
      stopped := by
  apply Contract.bind (mallocAll_foresees count)
  rintro allocated blocks ⟨size, foresees⟩
  exact continued allocated size blocks foresees

end Owing

/-! ## Classes of objects -/

/-- The blocks behind a pointer that was written. -/
def Pointer.Owns {Object : Type} (owns : Object → Multiset Nat → Prop) :
    Pointer Object → Multiset Nat → Prop
  | .junk, _ => False
  | .null, blocks => blocks = 0
  | .target object, blocks => owns object blocks

/-- A pointer to a block. -/
abbrev Pointer.OwnsBlock (pointer : Pointer Nat) (blocks : Multiset Nat) :
    Prop :=
  pointer.Owns (fun block owned => owned = {block}) blocks

/-- What the objects of a list own together. -/
def OwnsAll {Object : Type} (owns : Object → Multiset Nat → Prop)
    (objects : List Object) (owned : Multiset Nat) : Prop :=
  ∃ parts, List.Forall₂ owns objects parts ∧ owned = parts.sum

def destroyAll {Object : Type} (destroy : Object → Prog Blocks Unit) :
    List Object → Prog Blocks Unit
  | [] => pure ()
  | object :: rest => do
      destroy object
      destroyAll destroy rest

/-- The destructor frees what the object owns and nothing else. -/
def Destroys {Object : Type} (owns : Object → Multiset Nat → Prop)
    (destroy : Object → Prog Blocks Unit) : Prop :=
  ∀ object owned start more stopped, owns object owned →
    Contract (Owes start (owned + more)) (destroy object)
      (fun _ => Owes start more) stopped

/-- What a constructor may have come to: nothing, or an object that owns what
was allocated. -/
def Settled {Object : Type} (owns : Object → Multiset Nat → Prop)
    (start : Blocks) (more : Multiset Nat) :
    Option Object → Blocks → Prop
  | none, blocks => Owes start more blocks
  | some object, blocks =>
      ∃ owned, owns object owned ∧ Owes start (owned + more) blocks

/-- From these blocks the constructor returns, and settles. -/
def Settles {Object : Type} (owns : Object → Multiset Nat → Prop)
    (constructor : Prog Blocks (Option Object)) (blocks : Blocks) : Prop :=
  Contract (fun current => current = blocks) constructor
    (Settled owns blocks 0) fun _ => False

section Classes

variable {Object : Type} {owns : Object → Multiset Nat → Prop}
  {destroy : Object → Prog Blocks Unit} {start : Blocks}
  {more : Multiset Nat} {stopped : Blocks → Prop}

theorem destroys_free :
    Destroys (fun block owned => owned = {block}) free := by
  rintro block owned start more stopped rfl
  exact free_contract block

theorem Destroys.release (destroys : Destroys owns destroy) :
    Destroys (Pointer.Owns owns) (Pointer.release destroy) := by
  intro pointer owned start more stopped holds
  cases pointer with
  | junk =>
      exact holds.elim
  | null =>
      cases holds
      rw [zero_add]
      exact Contract.pure fun _ owes => owes
  | target object =>
      exact destroys object owned start more stopped holds

theorem ownsAll_cons {object : Object} {rest : List Object}
    {owned : Multiset Nat} :
    OwnsAll owns (object :: rest) owned ↔
      ∃ first others, owns object first ∧ OwnsAll owns rest others ∧
        owned = first + others := by
  constructor
  · rintro ⟨parts, holds, rfl⟩
    cases holds with
    | cons first others =>
        exact ⟨_, _, first, ⟨_, others, rfl⟩, List.sum_cons⟩
  · rintro ⟨first, others, holds, ⟨parts, all, rfl⟩, rfl⟩
    exact ⟨first :: parts, .cons holds all, List.sum_cons.symm⟩

theorem OwnsAll.concat {objects : List Object} {object : Object}
    {owned last : Multiset Nat} (all : OwnsAll owns objects owned)
    (holds : owns object last) :
    OwnsAll owns (objects ++ [object]) (owned + last) := by
  induction objects generalizing owned with
  | nil =>
      rcases all with ⟨parts, none, rfl⟩
      cases none
      refine ⟨[last], .cons holds .nil, ?_⟩
      rw [List.sum_nil, List.sum_singleton, zero_add]
  | cons first rest inductionHypothesis =>
      rcases ownsAll_cons.mp all with ⟨ofFirst, others, ownsFirst, ownsRest,
        rfl⟩
      rw [List.cons_append, add_assoc]
      exact ownsAll_cons.mpr
        ⟨ofFirst, _, ownsFirst, inductionHypothesis ownsRest, rfl⟩

theorem Destroys.all (destroys : Destroys owns destroy) :
    Destroys (OwnsAll owns) (destroyAll destroy) := by
  intro objects owned start more stopped all
  induction objects generalizing owned with
  | nil =>
      rcases all with ⟨parts, none, rfl⟩
      cases none
      apply Contract.pure
      intro blocks owes
      rw [List.sum_nil, zero_add] at owes
      exact owes
  | cons object rest inductionHypothesis =>
      rcases ownsAll_cons.mp all with ⟨first, others, holds, ownsRest, rfl⟩
      rw [add_assoc]
      exact Contract.bind (destroys object first start _ stopped holds)
        fun _ => inductionHypothesis others ownsRest

theorem malloc_settles :
    Contract (Owes start more) malloc
      (Settled (fun block owned => owned = {block}) start more) stopped := by
  apply Contract.weaken malloc_contract _ fun _ holds => holds
  intro answer blocks owes
  cases answer with
  | none =>
      rw [blockOf, zero_add] at owes
      exact owes
  | some block =>
      exact ⟨{block}, rfl, owes⟩

theorem Settled.ofOption {answer : Option Object} {blocks : Blocks}
    (settled : Settled owns start more answer blocks) :
    ∃ owned, (Pointer.ofOption answer).Owns owns owned ∧
      Owes start (owned + more) blocks := by
  cases answer with
  | none =>
      exact ⟨0, rfl, by rw [zero_add]; exact settled⟩
  | some object =>
      exact settled

theorem finishObject_settles (destroys : Destroys owns destroy)
    (outcome : ExitCode × Object) :
    Contract (fun blocks => ∃ owned, owns outcome.2 owned ∧
        Owes start (owned + more) blocks)
      (finishObject destroy outcome) (Settled owns start more) stopped := by
  rcases outcome with ⟨code, object⟩
  cases code with
  | success =>
      exact Contract.pure fun _ holds => holds
  | failure =>
      rintro blocks ⟨owned, holds, owes⟩
      have ends : Contract (Owes start more)
          (pure none : Prog Blocks (Option Object))
          (Settled owns start more) stopped :=
        Contract.pure fun _ settled => settled
      exact Contract.bind (destroys object owned start more stopped holds)
        (fun _ => ends) blocks owes

/-- A constructor settles when its initialisation leaves no junk, whatever
it answers. -/
theorem newObject_settles {raw : Nat → Object}
    {init : Object → Prog Blocks (ExitCode × Object)}
    {grants : Stream' Bool} (destroys : Destroys owns destroy)
    (initialises : grants.head = true → ∀ this,
      Contract (Foresees start ({this} + more) grants.tail)
        (init (raw this))
        (fun answer blocks => ∃ owned, owns answer.2 owned ∧
          Owes start (owned + more) blocks) stopped) :
    Contract (Foresees start more grants) (newObject raw init destroy)
      (Settled owns start more) stopped := by
  apply Contract.bind malloc_foresees
  intro answer
  cases answer with
  | none =>
      apply Contract.pure
      rintro blocks ⟨_, foresees⟩
      have owes := foresees.toOwes
      rw [blockOf, zero_add] at owes
      exact owes
  | some this =>
      rintro blocks ⟨granted, foresees⟩
      exact Contract.bind (initialises granted.symm this)
        (finishObject_settles destroys) blocks foresees

/-- A constructor that does not come to what it should. -/
theorem not_settles {constructor : Prog Blocks (Option Object)}
    {blocks : Blocks} {after : Option Object → Blocks → Prop}
    (contract : Contract (Foresees blocks 0 blocks.grants) constructor after
      fun _ => True)
    (apart : ∀ answer final, after answer final →
      ¬ Settled owns blocks 0 answer final) :
    ¬ Settles owns constructor blocks := by
  intro settles
  have reached := contract blocks ⟨owes_nothing blocks, rfl⟩
  have settled := settles blocks rfl
  cases outcome : constructor.from blocks with
  | mk answer final =>
      rw [outcome] at reached settled
      cases answer with
      | ok value => exact apart value final reached settled
      | error stop => exact settled

theorem Settles.of_contract {constructor : Prog Blocks (Option Object)}
    {blocks : Blocks}
    (contract : Contract (Foresees blocks 0 blocks.grants) constructor
      (Settled owns blocks 0) fun _ => False) :
    Settles owns constructor blocks := by
  apply Contract.strengthen contract
  rintro current rfl
  exact ⟨owes_nothing current, rfl⟩

end Classes

end CBlocks
