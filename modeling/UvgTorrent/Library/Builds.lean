import UvgTorrent.Library.Ledger

/-!
# Programs that build objects

A program on the blocks of memory beside one that answers without them.
`Builds` says that they end alike, that the blocks given to the program are
those it answers for or has lost, and that no other block is touched.  The
answers are related by both: what is owned, and what has been lost on the way.
-/

namespace CBlocks

open CProgram

/-- The two runs end with one stop, or with related answers.  Then the blocks
of the answer are owed, beside those that were lost. -/
inductive Built {α β : Type}
    (related : α → β → Multiset Nat → Multiset Nat → Prop)
    (start : Blocks) (more : Multiset Nat) :
    Exec α × Blocks → Exec β → Prop
  | returns {answer : α} {plain : β} {owned lost : Multiset Nat}
      {blocks : Blocks} (same : related answer plain owned lost)
      (owes : Owes start (owned + (lost + more)) blocks) :
      Built related start more (.ok answer, blocks) (.ok plain)
  | stops {stop : Stop} {blocks : Blocks} :
      Built related start more (.error stop, blocks) (.error stop)

/-- Given these blocks, and whatever else is allocated, the program ends as
the plain one does. -/
def Builds {α β : Type} (given : Multiset Nat)
    (related : α → β → Multiset Nat → Multiset Nat → Prop)
    (program : Prog Blocks α) (plain : Exec β) : Prop :=
  ∀ start more blocks, Owes start (given + more) blocks →
    Built related start more (program.from blocks) plain

/-- The relation behind a part that has lost some blocks. -/
def Losing {α β : Type} (lost : Multiset Nat)
    (related : α → β → Multiset Nat → Multiset Nat → Prop)
    (answer : α) (plain : β) (owned more : Multiset Nat) : Prop :=
  related answer plain owned (lost + more)

/-- A block whose allocation is known to succeed. -/
def mallocOne : Prog Blocks Nat := do
  let blocks ← getState
  setState { blocks with
    fresh := blocks.fresh + 1
    live := blocks.fresh ::ₘ blocks.live }
  pure blocks.fresh

section Rules

variable {α β γ δ : Type} {given : Multiset Nat}
  {related : α → β → Multiset Nat → Multiset Nat → Prop}
  {follows : γ → δ → Multiset Nat → Multiset Nat → Prop}

/-- What is known of a run may be told another way. -/
theorem Built.imp {weaker : α → β → Multiset Nat → Multiset Nat → Prop}
    {start : Blocks} {more others : Multiset Nat} {run : Exec α × Blocks}
    {plain : Exec β} (built : Built related start more run plain)
    (implied : ∀ answer value owned lost blocks, plain = .ok value →
      related answer value owned lost →
        Owes start (owned + (lost + more)) blocks →
          Built weaker start others (.ok answer, blocks) (.ok value)) :
    Built weaker start others run plain := by
  cases built with
  | stops => exact .stops
  | returns same owes => exact implied _ _ _ _ _ rfl same owes

theorem Builds.pure {answer : α} {plain : β}
    (same : related answer plain given 0) :
    Builds given related (Pure.pure answer) (Pure.pure plain) := by
  intro start more blocks owes
  rw [← zero_add more] at owes
  exact .returns same owes

theorem Builds.stop {stop : Stop} :
    Builds given related (CProgram.liftExec (.error stop)) (.error stop) :=
  fun _ _ _ _ => .stops

theorem Builds.bind {program : Prog Blocks α} {plain : Exec β}
    {rest : α → Prog Blocks γ} {plainRest : β → Exec δ}
    (first : Builds given related program plain)
    (second : ∀ answer plainAnswer owned lost,
      related answer plainAnswer owned lost →
        Builds owned (Losing lost follows) (rest answer)
          (plainRest plainAnswer)) :
    Builds given follows (program >>= rest) (plain >>= plainRest) := by
  intro start more blocks owes
  have built := first start more blocks owes
  rw [bind_from]
  revert built
  generalize program.from blocks = run
  intro built
  cases built with
  | stops => exact .stops
  | returns same owes =>
      rename_i lost _
      rw [ok_bind]
      apply (second _ _ _ _ same start (lost + more) _ owes).imp
      intro answer value further others final _ same owes
      rw [add_left_comm others lost more, ← add_assoc lost] at owes
      exact .returns same owes

/-- Only the plain program is seen to ask. -/
theorem Builds.malloc {rest : Nat → Prog Blocks γ} {plain : Exec δ}
    (allocated : ∀ block,
      Builds ({block} + given) follows (rest block) plain) :
    Builds given follows (mallocOne >>= rest) plain := by
  intro start more blocks owes
  have owes : Owes start ({blocks.fresh} + given + more)
      { blocks with
        fresh := blocks.fresh + 1
        live := blocks.fresh ::ₘ blocks.live } := by
    refine ⟨?_, owes.wrong, owes.refused⟩
    show blocks.fresh ::ₘ blocks.live = _
    rw [owes.live, Multiset.singleton_add, Multiset.cons_add,
      Multiset.cons_add]
  have built := allocated blocks.fresh start more _ owes
  simpa only [mallocOne, bind_from, getState_from, setState_from,
    pure_from] using built

/-- A step that frees some of the given blocks. -/
theorem Builds.frees {program : Prog Blocks Unit} {freed : Multiset Nat}
    {rest : Prog Blocks γ} {plain : Exec δ}
    (frees : ∀ start more, Contract (Owes start (freed + more)) program
      (fun _ => Owes start more) fun _ => False)
    (continued : Builds given follows rest plain) :
    Builds (freed + given) follows (program >>= fun _ => rest) plain := by
  intro start more blocks owes
  rw [add_assoc] at owes
  have reached := frees start _ blocks owes
  rw [bind_from]
  revert reached
  generalize program.from blocks = run
  intro reached
  rcases run with ⟨answer, final⟩
  cases answer with
  | ok _ => exact continued start more final reached
  | error stop => exact reached.elim

theorem Builds.freeAll {freed : List Nat} {rest : Prog Blocks γ}
    {plain : Exec δ} (continued : Builds given follows rest plain) :
    Builds (freed + given) follows
      (CBlocks.freeAll freed >>= fun _ => rest) plain :=
  .frees (fun _ _ => freeAll_contract freed) continued

theorem Builds.free {block : Nat} {rest : Prog Blocks γ} {plain : Exec δ}
    (continued : Builds given follows rest plain) :
    Builds ({block} + given) follows
      (CBlocks.free block >>= fun _ => rest) plain :=
  .frees (fun _ _ => free_contract block) continued

/-- What is known of the answers may be weakened, and the plain one is known
to be the answer of its run. -/
theorem Builds.weaken {program : Prog Blocks α} {plain : Exec β}
    {weaker : α → β → Multiset Nat → Multiset Nat → Prop}
    (builds : Builds given related program plain)
    (implied : ∀ answer value owned lost, plain = .ok value →
      related answer value owned lost → weaker answer value owned lost) :
    Builds given weaker program plain := by
  intro start more blocks owes
  apply (builds start more blocks owes).imp
  intro answer value owned lost final ran same owes
  exact .returns (implied answer value owned lost ran same) owes

end Rules

/-! ## A memory apart -/

/-- Nothing is allocated, and there is memory for everything. -/
def noBlocks : Blocks where
  fresh := 0
  live := 0
  wrong := []
  refused := 0
  grants := Stream'.const true

/-- Add what a run has left in a memory of its own, under new addresses. -/
def Blocks.adopt (blocks left : Blocks) : Blocks :=
  { blocks with
    fresh := blocks.fresh + left.fresh
    live := left.live.map (blocks.fresh + ·) + blocks.live
    wrong := left.wrong.map (blocks.fresh + ·) ++ blocks.wrong }

/-- A part of a run that is given no block and answers for none: it runs in a
memory of its own, which is added to that of the run. -/
def apart {α : Type} (program : Prog Blocks α) : Prog Blocks α := do
  let run := program.from noBlocks
  modifyState fun blocks => blocks.adopt run.2
  liftExec run.1

/-- The number of blocks that such a part leaves. -/
def leftBy {α : Type} (program : Prog Blocks α) : Nat :=
  Multiset.card (program.from noBlocks).2.live

section Apart

variable {α : Type} {program : Prog Blocks α} {plain : Exec α}
  {loses : Multiset Nat → Prop}

end Apart

end CBlocks
