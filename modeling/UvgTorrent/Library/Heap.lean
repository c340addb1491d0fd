import Mathlib.Data.Stream.Init
import UvgTorrent.Library.Program

/-!
# A heap of objects

Objects of one type lie at addresses and are reached through pointers.  It is
decided in advance which of the allocations to come succeed.
-/

namespace CHeap

open CProgram

structure Heap (Object : Type) where
  object : Nat → Option Object
  fresh : Nat
  unused : ∀ address, fresh ≤ address → object address = none
  grants : Stream' Bool

variable {Object : Type}

namespace Heap

def empty (grants : Stream' Bool) : Heap Object where
  object := fun _ => none
  fresh := 0
  unused := fun _ _ => rfl
  grants := grants

/-- A new object at a fresh address. -/
def place (heap : Heap Object) (object : Object) : Heap Object where
  object := Function.update heap.object heap.fresh (some object)
  fresh := heap.fresh + 1
  unused := by
    intro address above
    rw [Function.update_of_ne (by omega)]
    exact heap.unused address (by omega)
  grants := heap.grants

/-- Store into the fields of an object. -/
def write (heap : Heap Object) (target : Nat) (change : Object → Object) :
    Heap Object where
  object := Function.update heap.object target
    ((heap.object target).map change)
  fresh := heap.fresh
  unused := by
    intro address above
    by_cases same : address = target
    · rw [same, Function.update_self, ← same, heap.unused address above]
      rfl
    · rw [Function.update_of_ne same]
      exact heap.unused address above
  grants := heap.grants

/-- `free` on an object. -/
def release (heap : Heap Object) (target : Nat) : Heap Object where
  object := Function.update heap.object target none
  fresh := heap.fresh
  unused := by
    intro address above
    by_cases same : address = target
    · rw [same, Function.update_self]
    · rw [Function.update_of_ne same]
      exact heap.unused address above
  grants := heap.grants

/-- An allocation has been decided. -/
def spend (heap : Heap Object) : Heap Object :=
  { heap with grants := heap.grants.tail }

/-- Every allocation to come succeeds. -/
def Granting (heap : Heap Object) : Prop :=
  ∀ index, heap.grants.get index = true

end Heap

/-! ## Programs -/

/-- Whether the next block is allocated. -/
def newBlock : Prog (Heap Object) Bool := do
  let heap ← getState
  setState heap.spend
  pure heap.grants.head

/-- A block for an object; `none` is `NULL`. -/
def newObject (object : Object) : Prog (Heap Object) (Option Nat) := do
  match ← newBlock with
  | true =>
      let heap ← getState
      setState (heap.place object)
      pure (some heap.fresh)
  | false => pure none

/-- Read an object through a pointer. -/
def readObject (pointer : Option Nat) : Prog (Heap Object) Object := do
  let heap ← getState
  match pointer with
  | none => liftExec (.error .nullPointer)
  | some address =>
      match heap.object address with
      | none => liftExec (.error .readPast)
      | some object => pure object

/-- Store into an object through a pointer. -/
def writeObject (pointer : Option Nat) (change : Object → Object) :
    Prog (Heap Object) Unit := do
  let heap ← getState
  match pointer with
  | none => liftExec (.error .nullPointer)
  | some address =>
      match heap.object address with
      | none => liftExec (.error .writePast)
      | some _ => setState (heap.write address change)

section Access

variable {heap : Heap Object} {address other : Nat} {object : Object}

theorem Heap.lt_fresh (present : heap.object address = some object) :
    address < heap.fresh := by
  by_contra above
  rw [heap.unused address (Nat.not_lt.mp above)] at present
  cases present

@[simp]
theorem Heap.place_object (heap : Heap Object) (object : Object) :
    (heap.place object).object heap.fresh = some object :=
  Function.update_self _ _ _

theorem Heap.place_other (different : other ≠ heap.fresh)
    (object : Object) :
    (heap.place object).object other = heap.object other :=
  Function.update_of_ne different _ _

theorem Heap.write_object (present : heap.object address = some object)
    (change : Object → Object) :
    (heap.write address change).object address = some (change object) := by
  have updated : (heap.write address change).object address =
      (heap.object address).map change :=
    Function.update_self _ _ _
  rw [updated, present]
  rfl

theorem Heap.write_other (different : other ≠ address)
    (change : Object → Object) :
    (heap.write address change).object other = heap.object other :=
  Function.update_of_ne different _ _

theorem Heap.Granting.head (granting : heap.Granting) :
    heap.grants.head = true :=
  granting 0

theorem Heap.Granting.spend (granting : heap.Granting) :
    heap.spend.Granting :=
  fun index => granting (index + 1)

theorem newBlock_from (granting : heap.Granting) :
    newBlock.from heap = (.ok true, heap.spend) := by
  rw [← granting.head]
  rfl

theorem newObject_from (granting : heap.Granting) (object : Object) :
    (newObject object).from heap =
      (.ok (some heap.fresh), heap.spend.place object) := by
  rw [newObject, bind_from_ok (newBlock_from granting)]
  rfl

theorem readObject_from (present : heap.object address = some object) :
    (readObject (some address)).from heap = (.ok object, heap) := by
  rw [readObject, bind_from_ok (getState_from heap)]
  simp only [present]
  exact pure_from object heap

theorem writeObject_from (present : heap.object address = some object)
    (change : Object → Object) :
    (writeObject (some address) change).from heap =
      (.ok (), heap.write address change) := by
  rw [writeObject, bind_from_ok (getState_from heap)]
  simp only [present]
  exact setState_from heap _

end Access

end CHeap
