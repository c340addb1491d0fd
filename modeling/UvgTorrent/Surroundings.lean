import UvgTorrent.Library.Buffer

/-!
# What the machine decides

A run depends on things that the program does not choose: where a local array
lies and what a block of memory holds before anything is stored in it.
-/

namespace UvgTorrent

open CProgram CArray

/-- What the machine decides: the address of a local array, and what a fresh
block of memory holds. -/
structure Surroundings where
  address : Nat
  junk : Nat → UInt8

/-- A block of `malloc`. -/
def Surroundings.block (around : Surroundings) (size : Nat) : Buffer :=
  .ofCells ((List.range size).map around.junk)

@[simp]
theorem Surroundings.block_length (around : Surroundings) (size : Nat) :
    (around.block size).cells.length = size := by
  simp [Surroundings.block, Buffer.ofCells]

end UvgTorrent
