import Mathlib.Data.Stream.Defs

/-!
# Byte streams and their deliveries

The bytes a peer sends reach a reader in pieces of any size, and a read may
also report an error.  A stream is the bytes still to come with one delivery
for each read to come.  When no byte is left, a delivery is the end of the
stream: a piece of no byte.
-/

namespace NetStream

/-- What one read comes to: an error, or up to `extra + 1` bytes. -/
inductive Delivery where
  | error
  | ready (extra : Nat)
  deriving DecidableEq, Repr

structure ByteStream where
  incoming : List UInt8
  deliveries : Stream' Delivery

namespace ByteStream

/-- The bytes that a read of `asked` bytes yields; `none` is an error. -/
def arrival (stream : ByteStream) (asked : Nat) : Option (List UInt8) :=
  match stream.deliveries.head with
  | .error => none
  | .ready extra => some (stream.incoming.take (min asked (extra + 1)))

def after (stream : ByteStream) (asked : Nat) : ByteStream where
  incoming := stream.incoming.drop ((stream.arrival asked).getD []).length
  deliveries := stream.deliveries.tail

/-- A stream whose reads report no error; `cuts` says where it is cut. -/
def cutAt (incoming : List UInt8) (cuts : Stream' Nat) : ByteStream :=
  ⟨incoming, cuts.map .ready⟩

variable {stream : ByteStream} {asked : Nat} {bytes : List UInt8}

theorem drop_taken (source : List UInt8) (count : Nat) :
    source.drop (source.take count).length = source.drop count := by
  rw [List.length_take]
  by_cases short : count ≤ source.length
  · rw [Nat.min_eq_left short]
  · rw [Nat.min_eq_right (by omega), List.drop_length,
      List.drop_eq_nil_of_le (by omega)]

theorem arrival_length_le (arrived : stream.arrival asked = some bytes) :
    bytes.length ≤ asked := by
  unfold arrival at arrived
  split at arrived
  · cases arrived
  · cases Option.some.inj arrived
    rw [List.length_take]
    omega

section Cut

variable (incoming : List UInt8) (cuts : Stream' Nat) (asked : Nat)

theorem cutAt_arrival :
    (cutAt incoming cuts).arrival asked =
      some (incoming.take (min asked (cuts.head + 1))) :=
  rfl

theorem cutAt_after :
    (cutAt incoming cuts).after asked =
      cutAt (incoming.drop (min asked (cuts.head + 1))) cuts.tail := by
  have unfolded : (cutAt incoming cuts).after asked =
      ⟨incoming.drop (incoming.take (min asked (cuts.head + 1))).length,
        (cuts.map .ready).tail⟩ :=
    rfl
  rw [unfolded, drop_taken]
  rfl

end Cut

end ByteStream

end NetStream
