import UvgTorrent.DataStructures.LinkedlistAccess

/-!
# Destroying a list

`Linkednode_destroy` destroys what is behind a node before it frees the node.
The value of a node is a block of its own in the source; here it is part of
the node and is freed with it.
-/

namespace UvgTorrent.InMemory

open CProgram LinkedChain

/-! ## The functions -/

/-- `free`, which must be given a node that was not freed. -/
def freeNode (address : Nat) : Prog Memory Unit := do
  let memory ← getState
  match memory.node address with
  | none => liftExec (.error .abort)
  | some _ => setState (memory.release address)

/-- `Linkednode_destroy`, with at most `depth` calls of itself. -/
def linkednodeDestroy : Nat → Option Nat → Prog Memory Unit
  | _, none => pure ()
  | 0, some _ => liftExec (.error .unfinished)
  | depth + 1, some this => do
      let node ← derefNode (some this)
      linkednodeDestroy depth node.next
      freeNode this

/-- `Linkedlist_destroy`.  The list itself does not lie in this memory. -/
def linkedlistDestroy (depth : Nat) (this : Linkedlist) :
    Prog Memory Unit :=
  linkednodeDestroy depth this.head

/-! ## What is freed -/

/-- The memory without some of its nodes. -/
structure Without (memory : Memory) (gone : List Nat) (after : Memory) :
    Prop where
  fresh : after.fresh = memory.fresh
  grants : after.grants = memory.grants
  node : ∀ address, after.node address =
    if address ∈ gone then none else memory.node address

section Destroy

variable {memory : Memory} {this : Linkedlist} {cells : List Cell}
  {depth : Nat}

theorem freeNode_from {address : Nat} {node : Linkednode}
    (present : memory.node address = some node) :
    (freeNode address).from memory = (.ok (), memory.release address) := by
  simp only [freeNode, bind_from, getState_from, present, setState_from]

/-- A node is still there when everything behind it has been freed. -/
theorem linkednodeDestroy_from {first : Option Nat}
    (chain : Chain memory.load first cells)
    (enough : cells.length ≤ depth) :
    ∃ after, (linkednodeDestroy depth first).from memory =
        (.ok (), after) ∧
      Without memory (cells.map Prod.fst) after := by
  induction cells generalizing first depth with
  | nil =>
      cases chain
      refine ⟨memory, ?_, rfl, rfl, fun _ => rfl⟩
      cases depth <;> rfl
  | cons cell rest inductionHypothesis =>
      have distinct := chain.nodup
      rw [List.map_cons, List.nodup_cons] at distinct
      rcases chain with ⟨rfl, next, loaded, further⟩
      have present := Memory.node_of_load loaded
      cases depth with
      | zero =>
          exact absurd enough (Nat.not_succ_le_zero _)
      | succ depth =>
          rcases inductionHypothesis further (Nat.le_of_succ_le_succ enough)
            with ⟨behind, ran, without⟩
          have still : behind.node cell.1 = memory.node cell.1 := by
            rw [without.node, if_neg distinct.1]
          refine ⟨behind.release cell.1, ?_, without.fresh, without.grants,
            ?_⟩
          · rw [linkednodeDestroy, bind_from_ok (derefNode_from present),
              bind_from_ok ran, freeNode_from (still.trans present)]
          · intro address
            rw [List.map_cons]
            by_cases same : address = cell.1
            · rw [same, if_pos List.mem_cons_self]
              exact if_pos rfl
            · have gone : (behind.release cell.1).node address =
                  behind.node address := if_neg same
              rw [gone, without.node]
              simp only [List.mem_cons, same, false_or]

theorem linkedlistDestroy_from (spans : Spans memory this cells)
    (enough : cells.length ≤ depth) :
    ∃ after, (linkedlistDestroy depth this).from memory =
        (.ok (), after) ∧
      Without memory (cells.map Prod.fst) after :=
  linkednodeDestroy_from spans.chain enough

/-- A node that is not handed out has been freed again. -/
theorem linkednodeNew_refused {value : List UInt8} {after : Memory}
    (made : (linkednodeNew value).from memory = (.ok none, after)) :
    after.node memory.fresh = none := by
  rw [linkednodeNew, bind_from_ok (calloc_from _)] at made
  cases granted : memory.grants.head with
  | false =>
      rw [granted] at made
      cases made
      exact memory.unused _ (Nat.le_refl _)
  | true =>
      rcases linkednodeSet_from
        (memory.spend.place_self ⟨none, 0, none⟩) value with
        ⟨code, middle, set, -⟩
      rw [granted] at made
      simp only [bind_from, getState_from, setState_from, set] at made
      cases code with
      | success =>
          cases made
      | failure =>
          cases made
          exact if_pos rfl

/-- An append that fails leaves no node behind. -/
theorem linkedlistAppend_refused {that : Linkedlist} {after : Memory}
    {value : List UInt8} (spans : Spans memory this cells)
    (ran : (linkedlistAppend this value).from memory =
      (.ok (.failure, that), after)) :
    after.node memory.fresh = none := by
  rcases linkednodeNew_from memory value with ⟨answer, middle, made, makes⟩
  rcases makes.made with rfl | ⟨rfl, placed, fewer⟩
  · rw [linkedlistAppend, bind_from_ok made] at ran
    cases ran
    exact linkednodeNew_refused made
  · have succeeded : ∃ others final, (linkedlistAppend this value).from
        memory = (.ok (.success, others), final) := by
      rcases List.eq_nil_or_concat cells with rfl | ⟨front, last, rfl⟩
      · rcases appends_first made makes placed fewer spans with
          ⟨others, final, appended, -⟩
        exact ⟨others, final, appended⟩
      · rw [List.concat_eq_append] at spans
        rcases appends_behind made makes placed fewer spans with
          ⟨others, final, appended, -⟩
        exact ⟨others, final, appended⟩
    rcases succeeded with ⟨others, final, appended⟩
    rw [appended] at ran
    cases ran

end Destroy

/-- Whatever was appended, set and popped, and whichever allocations failed:
`Linkedlist_destroy` frees each node of the list once, reads none behind its
end and leaves every other node as it is. -/
theorem linkedlistDestroy_exact {memory : Memory} {this : Linkedlist}
    (reached : ListReached memory this) :
    ∃ cells, Counts memory this cells ∧
      (cells.map Prod.fst).Nodup ∧
      ∀ depth, cells.length ≤ depth → ∃ after,
        (linkedlistDestroy depth this).from memory = (.ok (), after) ∧
        Without memory (cells.map Prod.fst) after := by
  rcases reached.counts with ⟨cells, counts⟩
  exact ⟨cells, counts, counts.chain.nodup, fun depth enough =>
    linkedlistDestroy_from counts.toSpans enough⟩

theorem linkedlistDestroy_exact_used :
    ∃ cells, Counts usedMemory usedList cells ∧
      (cells.map Prod.fst).Nodup ∧
      ∀ depth, cells.length ≤ depth → ∃ after,
        (linkedlistDestroy depth usedList).from usedMemory =
          (.ok (), after) ∧
        Without usedMemory (cells.map Prod.fst) after :=
  linkedlistDestroy_exact usedList_reached

end UvgTorrent.InMemory
