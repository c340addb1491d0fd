import Mathlib.Algebra.Order.Ring.Int

/-!
# Fixed-width readings of integers

`toInt32` and `toUInt32` read an integer as a C compiler stores it in an
`int` and in a `uint32_t`.  `bigEndian` reads bytes in network order.
-/

namespace MachineInt

/-- The value an `int` holds after `value` is stored in it. -/
def toInt32 (value : Int) : Int :=
  value.bmod (2 ^ 32)

/-- The value a `long` holds after `value` is stored in it. -/
def toInt64 (value : Int) : Int :=
  value.bmod (2 ^ 64)

/-- The value a `uint32_t` holds after `value` is stored in it. -/
def toUInt32 (value : Int) : Nat :=
  (value % 2 ^ 32).toNat

/-- The value a `uint8_t` holds after `value` is stored in it. -/
def toUInt8 (value : Int) : UInt8 :=
  UInt8.ofNat (value % 2 ^ 8).toNat

/-- The number of bytes asked for when `value`, an `int`, is passed as a
`size_t`. -/
def toSize (value : Int) : Nat :=
  (value % 2 ^ 64).toNat

theorem toInt32_of_range {value : Int}
    (lower : -2 ^ 31 ≤ value) (upper : value < 2 ^ 31) :
    toInt32 value = value := by
  unfold toInt32
  apply Int.bmod_eq_of_le <;> omega

theorem toInt64_of_range {value : Int}
    (lower : -2 ^ 63 ≤ value) (upper : value < 2 ^ 63) :
    toInt64 value = value := by
  unfold toInt64
  apply Int.bmod_eq_of_le <;> omega

theorem toInt32_upper (value : Int) : toInt32 value < 2 ^ 31 := by
  have bound := Int.bmod_lt (x := value) (m := 2 ^ 32) (by decide)
  unfold toInt32
  omega

theorem toUInt32_of_range {value : Int}
    (lower : 0 ≤ value) (upper : value < 2 ^ 32) :
    (toUInt32 value : Int) = value := by
  unfold toUInt32
  omega

theorem toSize_of_range {value : Int}
    (lower : 0 ≤ value) (upper : value < 2 ^ 64) :
    (toSize value : Int) = value := by
  unfold toSize
  omega

theorem toSize_natCast {value : Nat} (upper : value < 2 ^ 64) :
    toSize value = value := by
  have reading := @toSize_of_range value (by omega) (by omega)
  omega

/-! ## Network byte order -/

/-- The number that bytes in network order stand for. -/
def bigEndian (bytes : List UInt8) : Nat :=
  bytes.foldl (fun total byte => total * 256 + byte.toNat) 0

/-- The four bytes of a 32-bit number in network order. -/
def bigEndian32 (value : Nat) : List UInt8 :=
  [UInt8.ofNat (value / 2 ^ 24), UInt8.ofNat (value / 2 ^ 16),
    UInt8.ofNat (value / 2 ^ 8), UInt8.ofNat value]

/-- The four bytes of a 32-bit number in the order of the host. -/
def littleEndian32 (value : Nat) : List UInt8 :=
  (bigEndian32 value).reverse

@[simp]
theorem bigEndian32_length (value : Nat) :
    (bigEndian32 value).length = 4 :=
  rfl

end MachineInt
