import Mathlib.Algebra.Order.Ring.Int
import Mathlib.Data.List.Induction
import Mathlib.Tactic.Ring
import UvgTorrent.Library.MachineInt

/-!
# Numbers in memory

A number of a fixed width lies in memory in the byte order of the host.  Put
into network order first, it lies there in network order on every host.
-/

namespace MachineInt

/-- The last `count` bytes of a number, in network order. -/
def networkBytes : Nat → Nat → List UInt8
  | 0, _ => []
  | count + 1, value => networkBytes count (value / 256) ++ [UInt8.ofNat value]

/-- The number whose bytes are those of `value` in reverse. -/
def swap (count value : Nat) : Nat :=
  bigEndian (networkBytes count value).reverse

inductive ByteOrder where
  | little
  | big
  deriving DecidableEq, Repr

/-- The memory of a number of `count` bytes. -/
def store (order : ByteOrder) (count value : Nat) : List UInt8 :=
  match order with
  | .little => (networkBytes count value).reverse
  | .big => networkBytes count value

/-- The number that lies in memory. -/
def load (order : ByteOrder) (bytes : List UInt8) : Nat :=
  match order with
  | .little => bigEndian bytes.reverse
  | .big => bigEndian bytes

/-- The number to store so that `value` lies in memory in network order, and
also the number that is loaded when it does. -/
def inNetworkOrder (order : ByteOrder) (count value : Nat) : Nat :=
  match order with
  | .little => swap count value
  | .big => value

section Bytes

variable {bytes : List UInt8} {count value : Nat}

@[simp]
theorem networkBytes_length (count value : Nat) :
    (networkBytes count value).length = count := by
  induction count generalizing value with
  | zero =>
      rfl
  | succ count inductionHypothesis =>
      rw [networkBytes, List.length_append, inductionHypothesis]
      rfl

theorem bigEndian_snoc (bytes : List UInt8) (byte : UInt8) :
    bigEndian (bytes ++ [byte]) = bigEndian bytes * 256 + byte.toNat := by
  rw [bigEndian, List.foldl_append]
  rfl

theorem bigEndian_append (first second : List UInt8) :
    bigEndian (first ++ second) =
      bigEndian first * 256 ^ second.length + bigEndian second := by
  induction second using List.reverseRecOn with
  | nil =>
      simp [bigEndian]
  | append_singleton front last inductionHypothesis =>
      rw [← List.append_assoc, bigEndian_snoc, bigEndian_snoc,
        inductionHypothesis, List.length_append, List.length_singleton,
        Nat.pow_succ]
      ring

theorem bigEndian_lt (bytes : List UInt8) :
    bigEndian bytes < 256 ^ bytes.length := by
  induction bytes using List.reverseRecOn with
  | nil =>
      exact Nat.zero_lt_one
  | append_singleton front last inductionHypothesis =>
      have bound := last.toNat_lt
      rw [bigEndian_snoc, List.length_append, List.length_singleton,
        Nat.pow_succ]
      omega

/-- Bytes are what their number is written with. -/
theorem networkBytes_bigEndian (bytes : List UInt8) :
    networkBytes bytes.length (bigEndian bytes) = bytes := by
  induction bytes using List.reverseRecOn with
  | nil =>
      rfl
  | append_singleton front last inductionHypothesis =>
      have bound := last.toNat_lt
      have shorter : (bigEndian front * 256 + last.toNat) / 256 =
          bigEndian front := by
        omega
      have same : UInt8.ofNat (bigEndian front * 256 + last.toNat) =
          last := by
        apply UInt8.toNat_inj.mp
        rw [UInt8.toNat_ofNat']
        omega
      rw [List.length_append, List.length_singleton, networkBytes,
        bigEndian_snoc, shorter, same, inductionHypothesis]

theorem bigEndian_inj {first second : List UInt8}
    (lengths : first.length = second.length)
    (same : bigEndian first = bigEndian second) : first = second := by
  rw [← networkBytes_bigEndian first, ← networkBytes_bigEndian second,
    lengths, same]

theorem bigEndian_networkBytes (count value : Nat) :
    bigEndian (networkBytes count value) = value % 256 ^ count := by
  induction count generalizing value with
  | zero =>
      exact (Nat.mod_one value).symm
  | succ count inductionHypothesis =>
      have last : (UInt8.ofNat value).toNat = value % 256 :=
        UInt8.toNat_ofNat'
      rw [networkBytes, bigEndian_snoc, inductionHypothesis, last,
        Nat.pow_succ', Nat.mod_mul, Nat.mul_comm, Nat.add_comm]

theorem networkBytes_mod (count value : Nat) :
    networkBytes count (value % 256 ^ count) = networkBytes count value := by
  rw [← bigEndian_networkBytes]
  have back := networkBytes_bigEndian (networkBytes count value)
  rwa [networkBytes_length] at back

theorem networkBytes_add (first second value : Nat) :
    networkBytes (first + second) value =
      networkBytes first (value / 256 ^ second) ++
        networkBytes second value := by
  induction second generalizing value with
  | zero =>
      simp [networkBytes]
  | succ second inductionHypothesis =>
      rw [← Nat.add_assoc, networkBytes, inductionHypothesis, networkBytes,
        Nat.div_div_eq_div_mul, Nat.pow_succ', List.append_assoc]

theorem bigEndian_zeros (count : Nat) :
    bigEndian (List.replicate count 0) = 0 := by
  induction count with
  | zero =>
      rfl
  | succ count inductionHypothesis =>
      rw [List.replicate_succ', bigEndian_snoc, inductionHypothesis]
      rfl

/-- Zeros in place of the last bytes do not raise the number. -/
theorem bigEndian_padded_le (bytes : List UInt8) (count : Nat) :
    bigEndian (bytes.take count ++
      List.replicate (bytes.length - count) 0) ≤ bigEndian bytes := by
  have whole := bigEndian_append (bytes.take count) (bytes.drop count)
  rw [List.take_append_drop, List.length_drop] at whole
  rw [bigEndian_append, bigEndian_zeros, List.length_replicate, whole]
  exact Nat.le_add_right _ _

theorem bigEndian32_eq (value : Nat) :
    bigEndian32 value = networkBytes 4 value := by
  simp only [bigEndian32, networkBytes, Nat.div_div_eq_div_mul,
    List.nil_append, List.cons_append]
  norm_num

theorem bigEndian_bigEndian32 {value : Nat} (bound : value < 2 ^ 32) :
    bigEndian (bigEndian32 value) = value := by
  rw [bigEndian32_eq, bigEndian_networkBytes]
  exact Nat.mod_eq_of_lt bound

theorem swap_lt (count value : Nat) : swap count value < 256 ^ count := by
  have bound := bigEndian_lt (networkBytes count value).reverse
  rwa [List.length_reverse, networkBytes_length] at bound

end Bytes

section Order

variable (order : ByteOrder)

@[simp]
theorem store_length (count value : Nat) :
    (store order count value).length = count := by
  cases order with
  | little => simp [store]
  | big => simp [store]

theorem load_lt (bytes : List UInt8) :
    load order bytes < 256 ^ bytes.length := by
  cases order with
  | little =>
      have bound := bigEndian_lt bytes.reverse
      rwa [List.length_reverse] at bound
  | big =>
      exact bigEndian_lt bytes

/-- What is loaded and stored again stays in place. -/
theorem store_load (bytes : List UInt8) :
    store order bytes.length (load order bytes) = bytes := by
  cases order with
  | little =>
      have back := networkBytes_bigEndian bytes.reverse
      rw [List.length_reverse] at back
      rw [store, load, back, List.reverse_reverse]
  | big =>
      exact networkBytes_bigEndian bytes

theorem load_store {count value : Nat} (bound : value < 256 ^ count) :
    load order (store order count value) = value := by
  cases order with
  | little =>
      rw [load, store, List.reverse_reverse, bigEndian_networkBytes,
        Nat.mod_eq_of_lt bound]
  | big =>
      rw [load, store, bigEndian_networkBytes, Nat.mod_eq_of_lt bound]

theorem store_inNetworkOrder (count value : Nat) :
    store order count (inNetworkOrder order count value) =
      networkBytes count value := by
  cases order with
  | little =>
      have back := networkBytes_bigEndian (networkBytes count value).reverse
      rw [List.length_reverse, networkBytes_length] at back
      rw [store, inNetworkOrder, swap, back, List.reverse_reverse]
  | big =>
      rfl

theorem inNetworkOrder_load (bytes : List UInt8) :
    inNetworkOrder order bytes.length (load order bytes) =
      bigEndian bytes := by
  cases order with
  | little =>
      have back := networkBytes_bigEndian bytes.reverse
      rw [List.length_reverse] at back
      rw [inNetworkOrder, load, swap, back, List.reverse_reverse]
  | big =>
      rfl

end Order

end MachineInt
