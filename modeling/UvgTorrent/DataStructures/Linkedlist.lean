import UvgTorrent.Library.Program

/-!
# Linked lists, seen from the head

A list is the sequence of the values met when `next` is followed from
`head`, with the stored `count`.
-/

namespace UvgTorrent

open CProgram

structure Linkedlist (α : Type) where
  values : List α
  count : Nat

variable {α : Type}

def linkedlistNew : Linkedlist α :=
  ⟨[], 0⟩

/-- `Linkedlist_append`, with its allocations succeeding. -/
def linkedlistAppend (this : Linkedlist α) (value : α) :
    ExitCode × Linkedlist α :=
  (.success, ⟨this.values ++ [value], this.count + 1⟩)

/-- `Linkedlist_append`, whose node may not be allocated. -/
def linkedlistAppendOn (granted : Bool) (this : Linkedlist α) (value : α) :
    ExitCode × Linkedlist α :=
  if granted then
    linkedlistAppend this value
  else
    (.failure, this)

/-- `Linkedlist_get`.  A position that is not negative is walked to node by
node, up to and including `count`. -/
def linkedlistGet (this : Linkedlist α) (pos : Int) : Exec (Option α) :=
  match this.values with
  | [] => pure none
  | _ :: _ =>
      if this.count < pos then
        pure none
      else
        match this.values[pos.toNat]? with
        | some value => pure (some value)
        | none => .error .nullPointer

end UvgTorrent
