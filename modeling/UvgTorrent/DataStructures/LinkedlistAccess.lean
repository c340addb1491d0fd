import Mathlib.Data.List.Nodup
import UvgTorrent.DataStructures.LinkedlistMemory

/-!
# Indexed access to a list

`Linkedlist_get` and `Linkedlist_set` refuse the positions above `count` and
walk to every other one.  They do not ask whether it is negative, and `count`
itself lies behind the last node.
-/

namespace UvgTorrent.InMemory

open CProgram MachineInt LinkedChain

/-! ## Access by position -/

/-- `for (int i = 0; i < pos; i++) curr = curr->next` -/
def follow (curr : Option Nat) : Nat → Prog Memory (Option Nat)
  | 0 => pure curr
  | steps + 1 => do
      let node ← derefNode curr
      follow node.next steps

/-- `Linkedlist_get`, answering the block that the value points to. -/
def linkedlistGet (this : Linkedlist) (pos : Int) :
    Prog Memory (Option (List UInt8)) :=
  if this.head = none then
    pure none
  else if this.count < pos then
    pure none
  else do
    let curr ← follow this.head pos.toNat
    let node ← derefNode curr
    pure node.value

/-- `Linkedlist_set`. -/
def linkedlistSet (this : Linkedlist) (pos : Int) (value : List UInt8) :
    Prog Memory ExitCode :=
  if this.head = none then
    pure .failure
  else if this.count < pos then
    pure .failure
  else do
    let curr ← follow this.head pos.toNat
    linkednodeSet curr value

/-! ## Reachable lists -/

/-- The lists that calls reach, with the memory they leave.  Allocations may
fail, and between two calls everything but the nodes of the list may
change. -/
inductive ListReached : Memory → Linkedlist → Prop
  | new (memory : Memory) : ListReached memory linkedlistNew
  | append {memory after : Memory} {this that : Linkedlist}
      {value : List UInt8} {code : ExitCode} :
      ListReached memory this →
      (linkedlistAppend this value).from memory = (.ok (code, that), after) →
      ListReached after that
  | pop {memory after : Memory} {this that : Linkedlist}
      {popped : Option Nat} :
      ListReached memory this →
      (linkedlistPop this).from memory = (.ok (popped, that), after) →
      ListReached after that
  | set {memory after : Memory} {this : Linkedlist} {pos : Int}
      {value : List UInt8} {code : ExitCode} :
      ListReached memory this →
      (linkedlistSet this pos value).from memory = (.ok code, after) →
      ListReached after this
  | elsewhere {memory other : Memory} {this : Linkedlist} :
      ListReached memory this →
      (∀ cells, Spans memory this cells →
        ∀ cell ∈ cells, other.node cell.1 = memory.node cell.1) →
      ListReached other this

/-- The cells of a list, and their number in `count`. -/
structure Counts (memory : Memory) (this : Linkedlist)
    (cells : List Cell) : Prop extends Spans memory this cells where
  count : this.count = toInt32 cells.length

/-! ## Exact access -/

/-- There is an element at the position. -/
def InRange (this : Linkedlist) (pos : Int) : Prop :=
  0 ≤ pos ∧ pos < this.count

instance (this : Linkedlist) (pos : Int) : Decidable (InRange this pos) :=
  inferInstanceAs (Decidable (_ ∧ _))

/-- `Linkedlist_get` answers the value at the position, and `NULL` where
there is none. -/
def GetsExactly (memory : Memory) (this : Linkedlist) (cells : List Cell)
    (pos : Int) : Prop :=
  (linkedlistGet this pos).from memory =
    (.ok (if InRange this pos then
      (cells[pos.toNat]?).bind fun cell => cell.2.1
    else
      none), memory)

/-- `Linkedlist_set` replaces the value at the position, and fails where
there is none. -/
def SetsExactly (memory : Memory) (this : Linkedlist) (cells : List Cell)
    (pos : Int) (value : List UInt8) : Prop :=
  ∃ code after,
    (linkedlistSet this pos value).from memory = (.ok code, after) ∧
    if InRange this pos then
      code = .success ∧ Spans after this
        (cells.modify pos.toNat fun cell => .holding cell.1 value)
    else
      code = .failure ∧ Spans after this cells

section Access

variable {memory : Memory} {this : Linkedlist} {cells : List Cell}
  {pos : Int} {value : List UInt8}

theorem follow_front {first : Option Nat} {before after : List Cell}
    (chain : Chain memory.load first (before ++ after)) :
    (follow first before.length).from memory =
      (.ok (after.head?.map Prod.fst), memory) := by
  induction before generalizing first with
  | nil =>
      rw [chain.first_eq]
      rfl
  | cons cell before inductionHypothesis =>
      rcases chain with ⟨rfl, next, loaded, further⟩
      have present := Memory.node_of_load loaded
      rw [List.length_cons, follow, bind_from_ok (derefNode_from present)]
      exact inductionHypothesis further

/-- A position that is not above `count` is walked to. -/
theorem linkedlistGet_walks (nonempty : this.head ≠ none)
    (below : ¬ this.count < pos) :
    linkedlistGet this pos = (do
      let curr ← follow this.head pos.toNat
      let node ← derefNode curr
      pure node.value) := by
  rw [linkedlistGet, if_neg nonempty, if_neg below]

theorem linkedlistSet_walks (nonempty : this.head ≠ none)
    (below : ¬ this.count < pos) (value : List UInt8) :
    linkedlistSet this pos value = (do
      let curr ← follow this.head pos.toNat
      linkednodeSet curr value) := by
  rw [linkedlistSet, if_neg nonempty, if_neg below]

theorem linkedlistGet_refused (refused : this.head = none ∨
    this.count < pos) :
    (linkedlistGet this pos).from memory = (.ok none, memory) := by
  rw [linkedlistGet]
  by_cases empty : this.head = none
  · rw [if_pos empty]
    rfl
  · rw [if_neg empty, if_pos (refused.resolve_left empty)]
    rfl

theorem linkedlistSet_refused (refused : this.head = none ∨
    this.count < pos) :
    (linkedlistSet this pos value).from memory =
      (.ok .failure, memory) := by
  rw [linkedlistSet]
  by_cases empty : this.head = none
  · rw [if_pos empty]
    rfl
  · rw [if_neg empty, if_pos (refused.resolve_left empty)]
    rfl

/-- A list with a cell has a head, and the cell is in the memory. -/
theorem Spans.reached {before after : List Cell} {cell : Cell}
    (spans : Spans memory this (before ++ cell :: after)) :
    this.head ≠ none ∧ ∃ next, memory.node cell.1 =
      some ⟨cell.2.1, cell.2.2, next⟩ := by
  have member : cell ∈ before ++ cell :: after :=
    List.mem_append_right _ List.mem_cons_self
  refine ⟨?_, spans.present member⟩
  rw [Ne, spans.empty_iff]
  exact List.ne_nil_of_mem member

/-- A walk that ends at a cell reads its value. -/
theorem linkedlistGet_reaches {before after : List Cell} {cell : Cell}
    (spans : Spans memory this (before ++ cell :: after))
    (below : ¬ this.count < pos) (there : pos.toNat = before.length) :
    (linkedlistGet this pos).from memory = (.ok cell.2.1, memory) := by
  rcases spans.reached with ⟨nonempty, next, present⟩
  rw [linkedlistGet_walks nonempty below, there,
    bind_from_ok (follow_front spans.chain)]
  exact bind_from_ok (derefNode_from present) _

/-- A walk that ends at a cell stores into it, if it can. -/
theorem linkedlistSet_reaches {before after : List Cell} {cell : Cell}
    (spans : Spans memory this (before ++ cell :: after))
    (below : ¬ this.count < pos) (there : pos.toNat = before.length)
    (value : List UInt8) :
    ∃ later, (linkedlistSet this pos value).from memory =
        (.ok (if memory.grants.head then .success else .failure), later) ∧
      later.grants = memory.grants.tail ∧ Spans later this (before ++
        (cell.1, if memory.grants.head then some (value ++ [0]) else none,
          value.length) :: after) := by
  rcases spans.reached with ⟨nonempty, next, present⟩
  rcases linkednodeSet_exact present value with
    ⟨later, ran, _, grants, stored, kept⟩
  refine ⟨later, ?_, grants, ?_, ?_⟩
  · rw [linkedlistSet_walks nonempty below, there,
      bind_from_ok (follow_front spans.chain)]
    exact ran
  · refine spans.chain.update (Memory.load_of_node present)
      (Memory.load_of_node stored) ?_
    intro other among
    have distinct := spans.chain.nodup
    rw [List.map_append, List.map_cons, List.nodup_middle,
      List.nodup_cons, ← List.map_append] at distinct
    have different : other.1 ≠ cell.1 := fun same =>
      distinct.1 (same ▸ List.mem_map_of_mem among)
    exact Memory.load_congr (kept other.1 different)
  · intro stillNonempty
    rw [spans.endNode stillNonempty, ← List.getLast?_map,
      ← List.getLast?_map, List.map_append, List.map_append,
      List.map_cons, List.map_cons]

/-- A walk to the place behind the last cell ends at `NULL`. -/
theorem follow_behind (spans : Spans memory this cells)
    (there : pos.toNat = cells.length) :
    (follow this.head pos.toNat).from memory = (.ok none, memory) := by
  have chain := spans.chain
  rw [← List.append_nil cells] at chain
  rw [there]
  exact follow_front chain

theorem linkedlistGet_stops (spans : Spans memory this cells)
    (nonempty : cells ≠ []) (below : ¬ this.count < pos)
    (there : pos.toNat = cells.length) :
    (linkedlistGet this pos).from memory =
      (.error .nullPointer, memory) := by
  rw [linkedlistGet_walks (mt spans.empty_iff.mp nonempty) below,
    bind_from_ok (follow_behind spans there)]
  rfl

theorem linkedlistSet_stops (spans : Spans memory this cells)
    (nonempty : cells ≠ []) (below : ¬ this.count < pos)
    (there : pos.toNat = cells.length) (value : List UInt8) :
    (linkedlistSet this pos value).from memory =
      (.error .nullPointer, memory) := by
  rw [linkedlistSet_walks (mt spans.empty_iff.mp nonempty) below,
    bind_from_ok (follow_behind spans there)]
  rfl

theorem toInt32_natCast_le (number : Nat) :
    toInt32 number ≤ number := by
  by_cases small : number < 2 ^ 31
  · rw [toInt32_of_range (by omega) (by omega)]
  · have upper := toInt32_upper number
    omega

/-- Where the two calls refuse the position, there is no element. -/
theorem not_inRange_of_refused (counts : Counts memory this cells)
    (refused : this.head = none ∨ this.count < pos) :
    ¬ InRange this pos := by
  rintro ⟨notNegative, inside⟩
  rcases refused with empty | above
  · have noCells := counts.empty_iff.mp empty
    have zero := counts.count
    rw [noCells] at zero
    rw [zero] at inside
    exact absurd inside (Int.not_lt.mpr notNegative)
  · omega

theorem exact_refused (counts : Counts memory this cells)
    (refused : this.head = none ∨ this.count < pos) :
    GetsExactly memory this cells pos ∧
      ∀ value, SetsExactly memory this cells pos value := by
  have outside := not_inRange_of_refused counts refused
  refine ⟨?_, fun value =>
    ⟨.failure, memory, linkedlistSet_refused refused, ?_⟩⟩
  · rw [GetsExactly, if_neg outside]
    exact linkedlistGet_refused refused
  · rw [if_neg outside]
    exact ⟨rfl, counts.toSpans⟩

/-- Inside the range a walk reaches the element. -/
theorem inRange_reaches (counts : Counts memory this cells)
    (inside : InRange this pos) : pos.toNat < cells.length := by
  have bound := toInt32_natCast_le cells.length
  have isCount := counts.count
  rcases inside with ⟨notNegative, below⟩
  omega

/-- A set inside the range, whether or not its block is allocated. -/
theorem linkedlistSet_inRange (counts : Counts memory this cells)
    (inside : InRange this pos) (value : List UInt8) :
    ∃ before cell behind later,
      cells = before ++ cell :: behind ∧ before.length = pos.toNat ∧
      (cells.modify pos.toNat fun cell => .holding cell.1 value) =
        before ++ Cell.holding cell.1 value :: behind ∧
      (linkedlistSet this pos value).from memory =
        (.ok (if memory.grants.head then .success else .failure), later) ∧
      later.grants = memory.grants.tail ∧ Spans later this (before ++
        (cell.1, if memory.grants.head then some (value ++ [0]) else none,
          value.length) :: behind) := by
  have below : ¬ this.count < pos := Int.not_lt.mpr (Int.le_of_lt inside.2)
  rcases List.exists_of_modify (fun cell : Cell => .holding cell.1 value)
    (inRange_reaches counts inside) with
    ⟨before, cell, behind, whole, place, modified⟩
  have spans := counts.toSpans
  rw [whole] at spans
  rcases linkedlistSet_reaches spans below place.symm value with
    ⟨later, stored, spent, changed⟩
  exact ⟨before, cell, behind, later, whole, place, modified, stored, spent,
    changed⟩

theorem getsExactly_inRange (counts : Counts memory this cells)
    (inside : InRange this pos) : GetsExactly memory this cells pos := by
  have below : ¬ this.count < pos := Int.not_lt.mpr (Int.le_of_lt inside.2)
  rcases List.exists_of_modify id (inRange_reaches counts inside) with
    ⟨before, cell, after, whole, place, _⟩
  have spans := counts.toSpans
  rw [whole] at spans
  rw [GetsExactly, if_pos inside,
    linkedlistGet_reaches spans below place.symm, whole, ← place,
    List.getElem?_append_right (Nat.le_refl _), Nat.sub_self]
  rfl

/-- A set inside the range is exact when it gets its block. -/
theorem setsExactly_inRange_iff (counts : Counts memory this cells)
    (inside : InRange this pos) :
    SetsExactly memory this cells pos value ↔
      memory.grants.head = true := by
  rcases linkedlistSet_inRange counts inside value with
    ⟨before, cell, behind, later, _, _, modified, stored, _, changed⟩
  cases granted : memory.grants.head with
  | true =>
      rw [granted] at stored changed
      refine iff_of_true ⟨.success, later, stored, ?_⟩ rfl
      rw [if_pos inside, modified]
      exact ⟨rfl, changed⟩
  | false =>
      rw [granted] at stored
      refine iff_of_false ?_ Bool.false_ne_true
      rintro ⟨code, final, ran, result⟩
      rw [if_pos inside] at result
      cases stored.symm.trans ran
      cases result.1

/-- No walk goes further than behind the last cell. -/
theorem Counts.walked (counts : Counts memory this cells)
    (nonempty : cells ≠ []) (below : ¬ this.count < pos) :
    pos.toNat ≤ cells.length := by
  have bound := toInt32_natCast_le cells.length
  have isCount := counts.count
  have positive := List.length_pos_iff.mpr nonempty
  omega

/-- Outside the range a walk reads through `NULL` or stores into a cell. -/
theorem not_exact_outside (counts : Counts memory this cells)
    (nonempty : cells ≠ []) (below : ¬ this.count < pos)
    (outside : ¬ InRange this pos) :
    ¬ (GetsExactly memory this cells pos ∧
      ∀ value, SetsExactly memory this cells pos value) := by
  rintro ⟨gets, sets⟩
  rcases Nat.lt_or_eq_of_le (counts.walked nonempty below) with
    reached | behind
  · rcases List.exists_of_modify id reached with
      ⟨before, cell, after, whole, place, _⟩
    have spans := counts.toSpans
    rw [whole] at spans
    -- a value that the cell is too small for
    rcases linkedlistSet_reaches spans below place.symm
      (List.replicate (cell.2.2 + 1) 0) with
      ⟨later, stored, _, changed⟩
    rcases sets (List.replicate (cell.2.2 + 1) 0) with
      ⟨code, final, ran, result⟩
    rw [if_neg outside, whole] at result
    rw [stored] at ran
    cases ran
    have same := changed.chain.unique result.2.chain
    have cells := List.append_cancel_left same
    injection cells with sameCell
    have sizes := congrArg (fun cell : Cell => cell.2.2) sameCell
    simp only [List.length_replicate] at sizes
    omega
  · have stopped := linkedlistGet_stops counts.toSpans nonempty below
      behind
    rw [GetsExactly, stopped] at gets
    cases gets

/-- In memory a get answers what it answers on the values of the list. -/
theorem linkedlistGet_refines {nodes : List (Nat × List UInt8)}
    (holds : Holds memory this nodes) (pos : Int) :
    (linkedlistGet this pos).from memory =
      ((UvgTorrent.linkedlistGet (view nodes) pos).map
        (Option.map (· ++ [0])), memory) := by
  have spans := linked_iff.mp holds.toLinked
  have isCount := holds.count
  cases nodes with
  | nil =>
      exact linkedlistGet_refused (.inl (holds.empty_iff.mpr rfl))
  | cons first rest =>
      have nonempty : (first :: rest).map cell ≠ [] := List.cons_ne_nil _ _
      rw [UvgTorrent.linkedlistGet, view]
      simp only [List.map_cons]
      by_cases above : this.count < pos
      · rw [linkedlistGet_refused (.inr above), if_pos (isCount ▸ above)]
        rfl
      · rw [if_neg (isCount ▸ above), ← List.map_cons, List.getElem?_map]
        by_cases reached : pos.toNat < (first :: rest).length
        · rcases List.exists_of_modify id reached with
            ⟨before, node, after, whole, place, _⟩
          rw [whole, List.map_append, List.map_cons] at spans
          rw [linkedlistGet_reaches spans above
            (by rw [List.length_map]; exact place.symm), whole, ← place,
            List.getElem?_append_right (Nat.le_refl _), Nat.sub_self]
          rfl
        · have behind : pos.toNat = ((first :: rest).map cell).length := by
            rw [List.length_map]
            omega
          rw [linkedlistGet_stops spans nonempty above behind,
            List.getElem?_eq_none (Nat.not_lt.mp reached)]
          rfl

end Access

/-! ## Runs -/

section Runs

variable {memory : Memory} {this : Linkedlist}

theorem toInt32_succ (number : Nat) :
    toInt32 (toInt32 number + 1) = toInt32 (number + 1 : Nat) := by
  rw [toInt32, toInt32, Int.bmod_add_bmod, toInt32]
  rfl

/-- Every list that calls reach spans its cells and counts them. -/
theorem ListReached.counts (reached : ListReached memory this) :
    ∃ cells, Counts memory this cells := by
  induction reached with
  | new memory =>
      exact ⟨[], ⟨chain_nil, fun nonempty => absurd rfl nonempty⟩, rfl⟩
  | @append memory after this that value code reached ran
      inductionHypothesis =>
      rcases inductionHypothesis with ⟨cells, counts⟩
      rcases linkedlistAppend_spans counts.toSpans value with
        ⟨_, _, _, appended, appends⟩
      cases ran.symm.trans appended
      rcases appends.outcome with
        ⟨_, rfl, kept⟩ | ⟨_, count, _, longer⟩
      · refine ⟨cells, counts.frame ?_, counts.count⟩
        intro earlier member
        exact kept earlier.1 (Nat.ne_of_lt (counts.lt_fresh member))
      · refine ⟨_, longer, ?_⟩
        rw [count, counts.count, toInt32_succ, List.length_append]
        rfl
  | @pop memory after this that popped reached ran inductionHypothesis =>
      rcases inductionHypothesis with ⟨cells, counts⟩
      cases cells with
      | nil =>
          have empty := counts.empty_iff.mpr rfl
          cases ran.symm.trans (linkedlistPop_empty empty)
          exact ⟨[], counts⟩
      | cons first cells =>
          rcases linkedlistPop_spans counts.toSpans with
            ⟨_, _, shortened, shorter, count, _⟩
          cases ran.symm.trans shortened
          refine ⟨cells, shorter, ?_⟩
          rw [count, counts.count, toInt32, toInt32, Int.bmod_sub_bmod,
            toInt32, List.length_cons, Int.natCast_add_one,
            Int.add_sub_cancel]
  | @set memory after this pos value code reached ran
      inductionHypothesis =>
      rcases inductionHypothesis with ⟨cells, counts⟩
      by_cases refused : this.head = none ∨ this.count < pos
      · cases ran.symm.trans (linkedlistSet_refused refused)
        exact ⟨cells, counts⟩
      · rw [not_or] at refused
        have nonempty := mt counts.empty_iff.mpr refused.1
        rcases Nat.lt_or_eq_of_le (counts.walked nonempty refused.2) with
          reached | behind
        · rcases List.exists_of_modify id reached with
            ⟨before, cell, after, rfl, place, _⟩
          rcases linkedlistSet_reaches counts.toSpans refused.2 place.symm
            value with ⟨later, stored, _, changed⟩
          cases ran.symm.trans stored
          refine ⟨_, changed, ?_⟩
          rw [counts.count, List.length_append, List.length_append]
          rfl
        · rw [linkedlistSet_stops counts.toSpans nonempty refused.2 behind]
            at ran
          cases ran
  | elsewhere reached unchanged inductionHypothesis =>
      rcases inductionHypothesis with ⟨cells, counts⟩
      exact ⟨cells, counts.frame (unchanged cells counts.toSpans),
        counts.count⟩

/-- Access by position is exact on every list that calls reach, except at
`count`, where it goes through `NULL`, and at negative positions, which are
taken for the first one; a set needs its block, too. -/
theorem linkedlist_access_iff (reached : ListReached memory this) :
    ∃ cells, Counts memory this cells ∧
      ∀ pos, (GetsExactly memory this cells pos ∧
          ∀ value, SetsExactly memory this cells pos value) ↔
        (cells = [] ∨ this.count < pos ∨ InRange this pos) ∧
          (InRange this pos → memory.grants.head = true) := by
  rcases reached.counts with ⟨cells, counts⟩
  refine ⟨cells, counts, fun pos => ?_⟩
  constructor
  · intro exact
    refine ⟨?_, fun inside =>
      (setsExactly_inRange_iff counts inside).mp (exact.2 [])⟩
    by_contra outside
    rw [not_or, not_or] at outside
    exact not_exact_outside counts outside.1 outside.2.1 outside.2.2 exact
  · rintro ⟨empty | above | inside, granted⟩
    · exact exact_refused counts (.inl (counts.empty_iff.mpr empty))
    · exact exact_refused counts (.inr above)
    · exact ⟨getsExactly_inRange counts inside, fun value =>
        (setsExactly_inRange_iff counts inside).mpr (granted inside)⟩

end Runs

/-- A list of one element. -/
def oneElement : Linkedlist :=
  ⟨some 0, some 0, 1⟩

/-- The memory after its append. -/
def oneElementMemory : Memory :=
  ((linkedlistAppend linkedlistNew [7]).from
    (.empty (Stream'.const true))).2

theorem oneElement_reached : ListReached oneElementMemory oneElement :=
  @ListReached.append (.empty (Stream'.const true)) _ linkedlistNew _ [7]
    .success (.new _) rfl

/-- A list behind three appends, a set and a pop. -/
def usedList : Linkedlist :=
  ⟨some 1, some 2, 2⟩

def appendedMemory : Memory :=
  ((linkedlistAppend ⟨some 0, some 1, 2⟩ [9]).from
    ((linkedlistAppend oneElement [8]).from oneElementMemory).2).2

/-- The memory behind its calls. -/
def usedMemory : Memory :=
  ((linkedlistPop ⟨some 0, some 2, 3⟩).from
    ((linkedlistSet ⟨some 0, some 2, 3⟩ 1 [5]).from appendedMemory).2).2

theorem usedList_reached : ListReached usedMemory usedList := by
  have two : ListReached ((linkedlistAppend oneElement [8]).from
      oneElementMemory).2 ⟨some 0, some 1, 2⟩ :=
    @ListReached.append oneElementMemory _ oneElement _ [8] .success
      oneElement_reached rfl
  have three : ListReached appendedMemory ⟨some 0, some 2, 3⟩ :=
    @ListReached.append _ _ _ _ [9] .success two rfl
  have set : ListReached ((linkedlistSet ⟨some 0, some 2, 3⟩ 1 [5]).from
      appendedMemory).2 ⟨some 0, some 2, 3⟩ :=
    @ListReached.set _ _ _ 1 [5] .success three rfl
  exact @ListReached.pop _ _ _ _ (some 0) set rfl

theorem linkedlist_access_iff_used :
    ∃ cells, Counts usedMemory usedList cells ∧
      ∀ pos, (GetsExactly usedMemory usedList cells pos ∧
          ∀ value, SetsExactly usedMemory usedList cells pos value) ↔
        (cells = [] ∨ usedList.count < pos ∨ InRange usedList pos) ∧
          (InRange usedList pos → usedMemory.grants.head = true) :=
  linkedlist_access_iff usedList_reached

/-- Position 1 of one element is the `NULL` behind it. -/
theorem oneElement_atCount :
    ListReached oneElementMemory oneElement ∧ ¬ InRange oneElement 1 ∧
      (linkedlistGet oneElement 1).from oneElementMemory =
        (.error .nullPointer, oneElementMemory) ∧
      ∀ cells, ¬ GetsExactly oneElementMemory oneElement cells 1 := by
  refine ⟨oneElement_reached, by decide, rfl, fun cells gets => ?_⟩
  cases gets

end UvgTorrent.InMemory
