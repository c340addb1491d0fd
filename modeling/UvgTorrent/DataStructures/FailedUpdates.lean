import UvgTorrent.DataStructures.HashmapLookup
import UvgTorrent.DataStructures.LinkedlistAccess

/-!
# Updates that are refused a block

What the three updates of the containers answer, and what they leave, when
some of their allocations fail.
-/

namespace UvgTorrent

open CProgram CText Allocation

variable {α : Type}

/-- The value is in the map, under the key. -/
def Hashmap.StoresValue (map : Hashmap α) (key : Option CString)
    (value : Option α) : Prop :=
  ∃ name stored slot, key = some name ∧ value = some stored ∧
    (map.buckets slot).Holds name (some stored)

/-- `Hashmap_set` reports its failures. -/
def HashmapSetClean (map : Hashmap α) (outcomes : List Bool)
    (key : Option CString) (value : Option α) (code : ExitCode)
    (after : Hashmap α) : Prop :=
  CleanUpdate outcomes code (after = map) (after.StoresValue key value)

section Maps

variable {map after : Hashmap α} {key : Option CString} {value : Option α}
  {code : ExitCode} {outcomes : List Bool} {grants rest : Stream' Bool}

theorem Bucket.append_holds (chain : Bucket α) (name : CString)
    (stored : α) :
    (chain.append (.single name stored)).Holds name (some stored) := by
  induction chain with
  | null =>
      exact .inl ⟨rfl, rfl⟩
  | node key value next inductionHypothesis =>
      exact .inr inductionHypothesis

theorem hashmapSetIn_asksNothing (refused : Refuses map key value)
    (pattern : Stream' Bool) :
    AsksFor bare 0 pattern (hashmapSetIn map key value) := by
  rw [AsksFor, hashmapSetIn_refused refused]
  rfl

theorem hashmapSetIn_asks (keyed : map.Keyed) {name : CString}
    (room : map.bucketCount < maxHashtableKeys)
    (short : name.bytes.length < 2 ^ 32) (stored : α)
    (pattern : Stream' Bool) :
    AsksFor bare 3 pattern
      (hashmapSetIn map (some name) (some stored)) := by
  rw [AsksFor, hashmapSetIn_from keyed room short]
  rfl

/-- A store that is refused asks for nothing, another one for three
blocks. -/
theorem hashmapSetIn_outcomes (keyed : map.Keyed)
    (performs : Performs bare grants (hashmapSetIn map key value) outcomes
      (code, after) rest) :
    (code = .failure ∧ outcomes = [] ∧ after = map) ∨
      ∃ name stored, key = some name ∧ value = some stored ∧
        code = .success ∧ outcomes = attempts 3 grants ∧
        after = chainedMap map (slotOf name)
          (freshBucket grants name stored) := by
  rcases hashmapSetIn_cases keyed performs.ran with
    ⟨refused, failed, same⟩ |
    ⟨name, stored, rfl, rfl, room, short, succeeded, chained⟩
  · exact .inl ⟨failed,
      performs.outcomes_eq (hashmapSetIn_asksNothing refused), same⟩
  · exact .inr ⟨name, stored, rfl, rfl, succeeded,
      performs.outcomes_eq (hashmapSetIn_asks keyed room short stored),
      chained⟩

/-- Every pattern of failures makes a run. -/
theorem hashmapSetIn_performs (keyed : map.Keyed) {name : CString}
    (room : map.bucketCount < maxHashtableKeys)
    (short : name.bytes.length < 2 ^ 32) (stored : α)
    (grants : Stream' Bool) :
    Performs bare grants (hashmapSetIn map (some name) (some stored))
      (attempts 3 grants)
      (.success,
        chainedMap map (slotOf name) (freshBucket grants name stored))
      (grants.drop (attempts 3 grants).length) :=
  performs_attempts (hashmapSetIn_asks keyed room short stored)
    (hashmapSetIn_from keyed room short grants stored)

theorem hashmapSet_clean_iff (keyed : map.Keyed)
    (performs : Performs bare grants (hashmapSetIn map key value) outcomes
      (code, after) rest) :
    HashmapSetClean map outcomes key value code after ↔
      false ∉ outcomes := by
  rcases hashmapSetIn_outcomes keyed performs with
    ⟨rfl, rfl, rfl⟩ | ⟨name, stored, rfl, rfl, rfl, taken, chained⟩
  · refine iff_of_true ⟨?_, ?_⟩ List.not_mem_nil
    · exact fun refused => absurd refused List.not_mem_nil
    · exact fun succeeded => by cases succeeded
  · constructor
    · intro clean refused
      cases (clean.reported refused).1
    · intro granted
      refine ⟨fun refused => absurd refused granted, fun _ => ?_⟩
      rw [taken] at granted
      refine ⟨name, stored, slotOf name, rfl, rfl, ?_⟩
      rw [chained, freshBucket_granted granted, chainedMap]
      simp only [Function.update_self]
      exact Bucket.append_holds _ name stored

end Maps

end UvgTorrent

namespace UvgTorrent.InMemory

open CProgram CText MachineInt Allocation

/-- `Linkedlist_append` reports its failures. -/
def AppendClean (this : Linkedlist) (cells : List Cell)
    (outcomes : List Bool) (value : List UInt8) (code : ExitCode)
    (that : Linkedlist) (after : Memory) : Prop :=
  CleanUpdate outcomes code
    (that = this ∧ Counts after that cells)
    (∃ address, Counts after that (cells ++ [.holding address value]))

/-- `Linkedlist_set` reports its failures. -/
def SetClean (this : Linkedlist) (cells : List Cell) (pos : Int)
    (outcomes : List Bool) (value : List UInt8) (code : ExitCode)
    (after : Memory) : Prop :=
  CleanUpdate outcomes code (Counts after this cells)
    (Counts after this
      (cells.modify pos.toNat fun cell => .holding cell.1 value))

section Lists

variable {memory after : Memory} {this that : Linkedlist}
  {cells : List Cell} {value : List UInt8} {pos : Int} {code : ExitCode}
  {outcomes : List Bool}

/-- The decisions to come are not part of a list. -/
theorem counts_granting (counts : Counts memory this cells)
    (pattern : Stream' Bool) :
    Counts (Memory.allocator.granting memory pattern) this cells :=
  ⟨counts.frame fun _ _ => rfl, counts.count⟩

theorem linkedlistAppend_asks (counts : Counts memory this cells)
    (value : List UInt8) (pattern : Stream' Bool) :
    AsksFor Memory.allocator 2 (Memory.allocator.granting memory pattern)
      (linkedlistAppend this value) := by
  rcases linkedlistAppend_spans (counts_granting counts pattern).toSpans
    value with ⟨code, that, after, ran, appends⟩
  rw [AsksFor, ran]
  exact appends.spent

theorem linkedlistSet_asks (counts : Counts memory this cells)
    (inside : InRange this pos) (value : List UInt8)
    (pattern : Stream' Bool) :
    AsksFor Memory.allocator 1 (Memory.allocator.granting memory pattern)
      (linkedlistSet this pos value) := by
  rcases linkedlistSet_inRange (counts_granting counts pattern) inside value
    with ⟨_, _, _, later, _, _, _, ran, spent, _⟩
  rw [AsksFor, ran, attempts_one]
  exact spent

theorem linkedlistAppend_performs (counts : Counts memory this cells)
    (value : List UInt8) :
    ∃ code that after, Performs Memory.allocator memory
      (linkedlistAppend this value) (attempts 2 memory.grants)
      (code, that) after := by
  rcases linkedlistAppend_spans counts.toSpans value with
    ⟨code, that, after, ran, _⟩
  exact ⟨code, that, after,
    performs_attempts (linkedlistAppend_asks counts value) ran⟩

theorem linkedlistSet_performs (counts : Counts memory this cells)
    (inside : InRange this pos) (value : List UInt8) :
    ∃ code after, Performs Memory.allocator memory
      (linkedlistSet this pos value) (attempts 1 memory.grants) code
      after := by
  rcases linkedlistSet_inRange counts inside value with
    ⟨_, _, _, later, _, _, _, ran, _⟩
  exact ⟨_, later,
    performs_attempts (linkedlistSet_asks counts inside value) ran⟩

theorem linkedlistAppend_clean (counts : Counts memory this cells)
    (performs : Performs Memory.allocator memory
      (linkedlistAppend this value) outcomes (code, that) after) :
    AppendClean this cells outcomes value code that after := by
  have taken := performs.outcomes_eq (linkedlistAppend_asks counts value)
  rcases linkedlistAppend_spans counts.toSpans value with
    ⟨_, _, _, ran, appends⟩
  cases performs.ran.symm.trans ran
  have decided := appends.refused
  rw [taken]
  rcases appends.outcome with
    ⟨rfl, rfl, kept⟩ | ⟨rfl, count, _, longer⟩
  · refine ⟨fun _ => ⟨rfl, rfl, counts.frame ?_, counts.count⟩, ?_⟩
    · intro earlier member
      exact kept earlier.1 (Nat.ne_of_lt (counts.lt_fresh member))
    · exact fun succeeded => by cases succeeded
  · refine ⟨fun refused => ?_, fun _ => ⟨memory.fresh, longer, ?_⟩⟩
    · cases decided.mpr refused
    · rw [count, counts.count, toInt32_succ, List.length_append]
      rfl

/-- A set that is refused its block has already lost the old value. -/
theorem linkedlistSet_clean_iff (counts : Counts memory this cells)
    (inside : InRange this pos)
    (performs : Performs Memory.allocator memory
      (linkedlistSet this pos value) outcomes code after) :
    SetClean this cells pos outcomes value code after ↔
      false ∉ outcomes ∨
        ∃ address, cells[pos.toNat]? =
          some (address, none, value.length) := by
  have taken : outcomes = [memory.grants.head] :=
    (performs.outcomes_eq (linkedlistSet_asks counts inside value)).trans
      (attempts_one memory.grants)
  rcases linkedlistSet_inRange counts inside value with
    ⟨before, cell, behind, later, rfl, place, modified, ran, _, changed⟩
  cases performs.ran.symm.trans ran
  rw [taken]
  have there : (before ++ cell :: behind)[pos.toNat]? = some cell := by
    rw [← place, List.getElem?_append_right (Nat.le_refl _), Nat.sub_self]
    rfl
  have size : ∀ other : Cell, (before ++ other :: behind).length =
      (before ++ cell :: behind).length := by
    intro other
    rw [List.length_append, List.length_append]
    rfl
  rw [there]
  cases granted : memory.grants.head with
  | true =>
      rw [granted] at changed
      refine iff_of_true ⟨fun refused => ?_, fun _ => ?_⟩
        (.inl (by decide))
      · exact absurd refused (by decide)
      · rw [modified]
        exact ⟨changed, by rw [counts.count, size (.holding cell.1 value)]⟩
  | false =>
      rw [granted] at changed
      rw [or_iff_right (by decide)]
      constructor
      · intro clean
        have same := changed.chain.unique
          (clean.reported List.mem_cons_self).2.chain
        have cells := List.append_cancel_left same
        injection cells with sameCell
        exact ⟨cell.1, congrArg some sameCell.symm⟩
      · rintro ⟨address, isCell⟩
        cases isCell
        refine ⟨fun _ => ⟨rfl, changed, counts.count⟩, ?_⟩
        exact fun succeeded => by cases succeeded

end Lists

/-- `Linkedlist_append` reports every failed allocation and undoes what it
has done.  `Linkedlist_set` reports it, but the value that it should replace
is gone.  `Hashmap_set` reports none. -/
theorem failedUpdates_iff {α : Type} {map : Hashmap α}
    (built : HashmapBuilt map) {memory : Memory} {this : Linkedlist}
    (reached : ListReached memory this) :
    (∀ key value {grants rest outcomes code after},
      Performs bare grants (hashmapSetIn map key value) outcomes
          (code, after) rest →
        (HashmapSetClean map outcomes key value code after ↔
          false ∉ outcomes)) ∧
    ∃ cells, Counts memory this cells ∧
      (∀ value {outcomes code that after},
        Performs Memory.allocator memory (linkedlistAppend this value)
            outcomes (code, that) after →
          AppendClean this cells outcomes value code that after) ∧
      ∀ pos value {outcomes code after}, InRange this pos →
        Performs Memory.allocator memory (linkedlistSet this pos value)
            outcomes code after →
          (SetClean this cells pos outcomes value code after ↔
            false ∉ outcomes ∨
              ∃ address, cells[pos.toNat]? =
                some (address, none, value.length)) := by
  rcases reached.counts with ⟨cells, counts⟩
  refine ⟨?_, cells, counts, ?_, ?_⟩
  · intro key value grants rest outcomes code after performs
    exact hashmapSet_clean_iff built.keyed performs
  · intro value outcomes code that after performs
    exact linkedlistAppend_clean counts performs
  · intro pos value outcomes code after inside performs
    exact linkedlistSet_clean_iff counts inside performs

theorem failedUpdates_iff_one :
    (∃ outcomes code after rest,
      Performs bare (Stream'.const false)
        (hashmapSetIn hashmapNew (some keyA) (some valueOne)) outcomes
        (code, after) rest ∧
      (HashmapSetClean hashmapNew outcomes (some keyA) (some valueOne) code
        after ↔ false ∉ outcomes)) ∧
    ∃ cells, Counts oneElementMemory oneElement cells ∧
      (∃ outcomes code that after,
        Performs Memory.allocator oneElementMemory
          (linkedlistAppend oneElement [8]) outcomes (code, that) after ∧
        AppendClean oneElement cells outcomes [8] code that after) ∧
      ∃ outcomes code after,
        Performs Memory.allocator oneElementMemory
          (linkedlistSet oneElement 0 [8]) outcomes code after ∧
        (SetClean oneElement cells 0 outcomes [8] code after ↔
          false ∉ outcomes ∨
            ∃ address, cells[(0 : Int).toNat]? =
              some (address, none, 1)) := by
  have built : HashmapBuilt (hashmapNew : Hashmap (List UInt8)) := .new
  have stored := @hashmapSetIn_performs _ _ built.keyed keyA
    (by decide) (by decide) valueOne (Stream'.const false)
  rcases failedUpdates_iff built oneElement_reached with
    ⟨stores, cells, counts, appends, sets⟩
  rcases linkedlistAppend_performs counts [8] with
    ⟨appendCode, that, appended, append⟩
  have inside : InRange oneElement 0 := by decide
  rcases linkedlistSet_performs counts inside [8] with
    ⟨setCode, changed, set⟩
  exact ⟨⟨_, _, _, _, stored, stores _ _ stored⟩,
    cells, counts, ⟨_, _, _, _, append, appends [8] append⟩,
    _, _, _, set, sets 0 [8] inside set⟩

/-- A store that gets no block answers success, and nothing is stored. -/
theorem hashmapSet_hides_failure :
    HashmapBuilt (hashmapNew : Hashmap (List UInt8)) ∧
      ∃ code after rest,
        Performs bare (Stream'.const false)
          (hashmapSetIn hashmapNew (some keyA) (some valueOne)) [false]
          (code, after) rest ∧
        ¬ HashmapSetClean hashmapNew [false] (some keyA) (some valueOne)
          code after := by
  have built : HashmapBuilt (hashmapNew : Hashmap (List UInt8)) := .new
  have stored := @hashmapSetIn_performs _ _ built.keyed keyA
    (by decide) (by decide) valueOne (Stream'.const false)
  have outcomes : attempts 3 (Stream'.const false) = [false] :=
    attempts_refused rfl
  rw [outcomes] at stored
  refine ⟨built, _, _, _, stored, fun clean => ?_⟩
  cases (clean.reported List.mem_cons_self).1

end UvgTorrent.InMemory
