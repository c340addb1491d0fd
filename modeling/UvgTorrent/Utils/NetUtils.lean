import UvgTorrent.Library.ByteOrder

/-!
# Byte order conversions

The functions of `net_utils` on a host of either byte order.  They look at
one byte in memory to find out whether they have to convert at all.
-/

namespace UvgTorrent

open MachineInt

/-! ## The C library -/

def htonl (order : ByteOrder) (value : UInt32) : UInt32 :=
  UInt32.ofNat (inNetworkOrder order 4 value.toNat)

def ntohl (order : ByteOrder) (value : UInt32) : UInt32 :=
  htonl order value

def htons (order : ByteOrder) (value : UInt16) : UInt16 :=
  UInt16.ofNat (inNetworkOrder order 2 value.toNat)

def ntohs (order : ByteOrder) (value : UInt16) : UInt16 :=
  htons order value

/-! ## The functions of `net_utils` -/

/-- `little_endianess`. -/
def littleEndianess (order : ByteOrder) : Bool :=
  (store order 4 0x01234567).head? == some 0x67

/-- `byteswap64`. -/
def byteswap64 (order : ByteOrder) (input : UInt64) : UInt64 :=
  let v1 := (ntohl order (input &&& 0x00000000ffffffff).toUInt32).toUInt64
  let v2 := (ntohl order (input >>> 32).toUInt32).toUInt64
  (v1 <<< 32) ||| v2

/-- The test that each of the six conversions makes. -/
def convert {α : Type} (order : ByteOrder) (converted input : α) : α :=
  if littleEndianess order then converted else input

def htonllUtil (order : ByteOrder) (input : UInt64) : UInt64 :=
  convert order (byteswap64 order input) input

def htonlUtil (order : ByteOrder) (input : UInt32) : UInt32 :=
  convert order (htonl order input) input

def htonsUtil (order : ByteOrder) (input : UInt16) : UInt16 :=
  convert order (htons order input) input

def ntohllUtil (order : ByteOrder) (input : UInt64) : UInt64 :=
  convert order (byteswap64 order input) input

def ntohlUtil (order : ByteOrder) (input : UInt32) : UInt32 :=
  convert order (ntohl order input) input

def ntohsUtil (order : ByteOrder) (input : UInt16) : UInt16 :=
  convert order (ntohs order input) input

/-! ## What they compute -/

/-- A conversion that is right on a little-endian host is right on both. -/
theorem convert_eq {α : Type} {order : ByteOrder} {converted input : α}
    {read : α → Nat} {count : Nat}
    (swaps : order = .little → read converted = swap count (read input)) :
    read (convert order converted input) =
      inNetworkOrder order count (read input) := by
  cases order with
  | little => exact swaps rfl
  | big => rfl

theorem htonl_little (value : UInt32) :
    (htonl .little value).toNat = swap 4 value.toNat := by
  have bound := swap_lt 4 value.toNat
  exact UInt32.toNat_ofNat_of_lt' bound

theorem htons_little (value : UInt16) :
    (htons .little value).toNat = swap 2 value.toNat := by
  have bound := swap_lt 2 value.toNat
  exact UInt16.toNat_ofNat_of_lt' bound

theorem swap_mod (count value : Nat) :
    swap count (value % 256 ^ count) = swap count value := by
  rw [swap, networkBytes_mod, swap]

/-- The bytes of the two halves change places, and so do the halves. -/
theorem swap_add (first second value : Nat) :
    swap (first + second) value =
      swap second value * 256 ^ first +
        swap first (value / 256 ^ second) := by
  rw [swap, networkBytes_add, List.reverse_append, bigEndian_append,
    List.length_reverse, networkBytes_length]
  rfl

theorem byteswap64_little (input : UInt64) :
    (byteswap64 .little input).toNat = swap 8 input.toNat := by
  have low : (input &&& 0x00000000ffffffff).toUInt32.toNat =
      input.toNat % 256 ^ 4 := by
    rw [UInt64.toNat_toUInt32, UInt64.toNat_and]
    have mask : input.toNat &&& 0xffffffff = input.toNat % 2 ^ 32 :=
      Nat.and_two_pow_sub_one_eq_mod input.toNat 32
    have literal : (0x00000000ffffffff : UInt64).toNat = 0xffffffff := rfl
    rw [literal, mask]
    omega
  have high : (input >>> 32).toUInt32.toNat = input.toNat / 256 ^ 4 := by
    have bound := input.toNat_lt
    simp [Nat.shiftRight_eq_div_pow]
    omega
  have first := htonl_little (input &&& 0x00000000ffffffff).toUInt32
  have second := htonl_little (input >>> 32).toUInt32
  rw [low, swap_mod] at first
  rw [high] at second
  have firstBound := swap_lt 4 input.toNat
  have secondBound := swap_lt 4 (input.toNat / 256 ^ 4)
  have joined := Nat.shiftLeft_add_eq_or_of_lt (i := 32) secondBound
    (swap 4 input.toNat)
  rw [byteswap64, swap_add 4 4, UInt64.toNat_or, UInt64.toNat_shiftLeft,
    UInt32.toNat_toUInt64, UInt32.toNat_toUInt64, ntohl, ntohl, first, second]
  have shift : (32 : UInt64).toNat % 64 = 32 := rfl
  have fits : swap 4 input.toNat <<< 32 < 2 ^ 64 := by
    rw [Nat.shiftLeft_eq]
    omega
  rw [shift, Nat.mod_eq_of_lt fits, ← joined, Nat.shiftLeft_eq]
  omega

/-- Each conversion gives the number to store for network order. -/
theorem htonllUtil_toNat (order : ByteOrder) (input : UInt64) :
    (htonllUtil order input).toNat =
      inNetworkOrder order 8 input.toNat := by
  apply @convert_eq UInt64 order _ input UInt64.toNat 8
  rintro rfl
  exact byteswap64_little input

theorem htonlUtil_toNat (order : ByteOrder) (input : UInt32) :
    (htonlUtil order input).toNat =
      inNetworkOrder order 4 input.toNat := by
  apply @convert_eq UInt32 order _ input UInt32.toNat 4
  rintro rfl
  exact htonl_little input

theorem htonsUtil_toNat (order : ByteOrder) (input : UInt16) :
    (htonsUtil order input).toNat =
      inNetworkOrder order 2 input.toNat := by
  apply @convert_eq UInt16 order _ input UInt16.toNat 2
  rintro rfl
  exact htons_little input

/-! ## Numbers in a packet -/

def store64 (order : ByteOrder) (value : UInt64) : List UInt8 :=
  store order 8 value.toNat

def store32 (order : ByteOrder) (value : UInt32) : List UInt8 :=
  store order 4 value.toNat

def store16 (order : ByteOrder) (value : UInt16) : List UInt8 :=
  store order 2 value.toNat

def load64 (order : ByteOrder) (bytes : List UInt8) : UInt64 :=
  UInt64.ofNat (load order bytes)

def load32 (order : ByteOrder) (bytes : List UInt8) : UInt32 :=
  UInt32.ofNat (load order bytes)

def load16 (order : ByteOrder) (bytes : List UInt8) : UInt16 :=
  UInt16.ofNat (load order bytes)

section Packet

variable {order : ByteOrder} {bytes : List UInt8}

/-- A converted number is sent in network order. -/
theorem store64_htonll (order : ByteOrder) (value : UInt64) :
    store64 order (htonllUtil order value) =
      networkBytes 8 value.toNat := by
  rw [store64, htonllUtil_toNat, store_inNetworkOrder]

theorem store32_htonl (order : ByteOrder) (value : UInt32) :
    store32 order (htonlUtil order value) =
      networkBytes 4 value.toNat := by
  rw [store32, htonlUtil_toNat, store_inNetworkOrder]

theorem store16_htons (order : ByteOrder) (value : UInt16) :
    store16 order (htonsUtil order value) =
      networkBytes 2 value.toNat := by
  rw [store16, htonsUtil_toNat, store_inNetworkOrder]

/-- A number that was received is converted to the one sent. -/
theorem ntohll_load64 (eight : bytes.length = 8) :
    (ntohllUtil order (load64 order bytes)).toNat = bigEndian bytes := by
  have bound := load_lt order bytes
  rw [eight] at bound
  have loaded : (load64 order bytes).toNat = load order bytes :=
    UInt64.toNat_ofNat_of_lt' bound
  have back := inNetworkOrder_load order bytes
  rw [eight] at back
  exact (htonllUtil_toNat order _).trans (by rw [loaded, back])

theorem ntohl_load32 (four : bytes.length = 4) :
    (ntohlUtil order (load32 order bytes)).toNat = bigEndian bytes := by
  have bound := load_lt order bytes
  rw [four] at bound
  have loaded : (load32 order bytes).toNat = load order bytes :=
    UInt32.toNat_ofNat_of_lt' bound
  have back := inNetworkOrder_load order bytes
  rw [four] at back
  exact (htonlUtil_toNat order _).trans (by rw [loaded, back])

/-- A number that is not converted keeps its bytes. -/
theorem store32_load32 (four : bytes.length = 4) :
    store32 order (load32 order bytes) = bytes := by
  have bound := load_lt order bytes
  rw [four] at bound
  have loaded : (load32 order bytes).toNat = load order bytes :=
    UInt32.toNat_ofNat_of_lt' bound
  have back := store_load order bytes
  rwa [four, ← loaded] at back

theorem load32_store32 (order : ByteOrder) (value : UInt32) :
    load32 order (store32 order value) = value := by
  have bound : value.toNat < 256 ^ 4 := value.toNat_lt
  have back := load_store order bound
  rw [load32, store32, back, UInt32.ofNat_toNat]

end Packet

end UvgTorrent
