import UvgTorrent.Library.CString
import UvgTorrent.Surroundings

/-!
# URL coding

`string_urlencode` and `string_urldecode`.  Each stores its answer byte by
byte in a block of `malloc` and ends it with a terminator.
-/

namespace UvgTorrent

open CProgram CText CArray

/-- `isalnum` in the C locale, where no byte above 127 is a letter. -/
def isAlnum (byte : UInt8) : Bool :=
  isDigit byte || (ch 'a' ≤ byte && byte ≤ ch 'z') ||
    (ch 'A' ≤ byte && byte ≤ ch 'Z')

/-- `tolower` in the C locale. -/
def toLower (byte : UInt8) : UInt8 :=
  if ch 'A' ≤ byte ∧ byte ≤ ch 'Z' then byte + 32 else byte

/-- `from_hex`, with its result stored in a `char`. -/
def fromHex (byte : UInt8) : UInt8 :=
  if isDigit byte then byte - ch '0' else toLower byte - ch 'a' + 10

/-- `to_hex`. -/
def toHex (code : Int8) : UInt8 :=
  (text "0123456789abcdef").getD (code &&& 15).toNatClampNeg 0

/-! ## Encoding -/

/-- What one round of `string_urlencode` stores.  A `char` is signed, so its
shift fills in copies of the top bit. -/
def urlencodeByte (byte : UInt8) : List UInt8 :=
  if isAlnum byte ∨ byte = ch '-' ∨ byte = ch '_' ∨ byte = ch '.' ∨
      byte = ch '~' then
    [byte]
  else if byte = ch ' ' then
    [ch '+']
  else
    [ch '%', toHex (byte.toInt8 >>> 4), toHex (byte.toInt8 &&& 15)]

/-- `string_urlencode`. -/
def stringUrlencode (around : Surroundings) (input : CString) : Buffer :=
  (around.block (input.strlen * 3 + 1)).storeAll 0
    (input.bytes.flatMap urlencodeByte ++ [0])

/-! ## Decoding -/

def urldecodePlain (byte : UInt8) : UInt8 :=
  if byte = ch '+' then ch ' ' else byte

/-- What `string_urldecode` stores in front of its terminator.  A percent sign
with fewer than two bytes behind it stores nothing. -/
def urldecodeBytes : List UInt8 → List UInt8
  | byte :: high :: low :: rest =>
      if byte = ch '%' then
        (fromHex high <<< 4 ||| fromHex low) :: urldecodeBytes rest
      else
        urldecodePlain byte :: urldecodeBytes (high :: low :: rest)
  | byte :: rest =>
      if byte = ch '%' then
        urldecodeBytes rest
      else
        urldecodePlain byte :: urldecodeBytes rest
  | [] => []

/-- `string_urldecode`. -/
def stringUrldecode (around : Surroundings) (input : CString) : Buffer :=
  (around.block (input.strlen + 1)).storeAll 0
    (urldecodeBytes input.bytes ++ [0])

/-! ## One byte -/

/-- The two digits of a byte are read back as the byte. -/
theorem fromHex_toHex (byte : UInt8) :
    fromHex (toHex (byte.toInt8 >>> 4)) <<< 4 |||
      fromHex (toHex (byte.toInt8 &&& 15)) = byte := by
  revert byte
  apply forall_byte
  decide +kernel

theorem toHex_ne_zero (byte : UInt8) :
    toHex (byte.toInt8 >>> 4) ≠ 0 ∧ toHex (byte.toInt8 &&& 15) ≠ 0 := by
  revert byte
  apply forall_byte
  decide +kernel

theorem isAlnum_ne {byte : UInt8} (alnum : isAlnum byte) :
    byte ≠ ch '%' ∧ byte ≠ ch '+' := by
  constructor
  · rintro rfl
    exact absurd alnum (by decide)
  · rintro rfl
    exact absurd alnum (by decide)

theorem urldecodeBytes_plain {byte : UInt8} (noPercent : byte ≠ ch '%')
    (rest : List UInt8) :
    urldecodeBytes (byte :: rest) =
      urldecodePlain byte :: urldecodeBytes rest := by
  cases rest with
  | nil =>
      exact if_neg noPercent
  | cons high rest =>
      cases rest with
      | nil =>
          exact if_neg noPercent
      | cons low rest =>
          exact if_neg noPercent

theorem urldecodeBytes_escape (high low : UInt8) (rest : List UInt8) :
    urldecodeBytes (ch '%' :: high :: low :: rest) =
      (fromHex high <<< 4 ||| fromHex low) :: urldecodeBytes rest :=
  if_pos rfl

/-- What is stored for a byte decodes to the byte, whatever follows it. -/
theorem urldecodeBytes_urlencodeByte (byte : UInt8) (rest : List UInt8) :
    urldecodeBytes (urlencodeByte byte ++ rest) =
      byte :: urldecodeBytes rest := by
  unfold urlencodeByte
  split
  · rename_i kept
    have plain : byte ≠ ch '%' ∧ byte ≠ ch '+' := by
      rcases kept with alnum | rfl | rfl | rfl | rfl
      · exact isAlnum_ne alnum
      all_goals decide
    exact (urldecodeBytes_plain plain.1 rest).trans
      (congrArg (· :: urldecodeBytes rest) (if_neg plain.2))
  · split
    · rename_i space
      rw [space]
      exact urldecodeBytes_plain (by decide) rest
    · have read := urldecodeBytes_escape (toHex (byte.toInt8 >>> 4))
        (toHex (byte.toInt8 &&& 15)) rest
      rw [fromHex_toHex] at read
      exact read

theorem urlencodeByte_noNul {byte : UInt8} (notNul : byte ≠ 0) :
    0 ∉ urlencodeByte byte := by
  unfold urlencodeByte
  split
  · simpa using notNul.symm
  · split
    · decide
    · have high := (toHex_ne_zero byte).1.symm
      have low := (toHex_ne_zero byte).2.symm
      have sign : (0 : UInt8) ≠ ch '%' := by decide
      simp only [List.mem_cons, List.not_mem_nil, sign, high, low, or_self,
        not_false_eq_true]

theorem urlencodeByte_length (byte : UInt8) :
    (urlencodeByte byte).length ≤ 3 := by
  unfold urlencodeByte
  split
  · exact Nat.le_add_left 1 2
  · split
    · exact Nat.le_add_left 1 2
    · exact Nat.le_refl 3

/-! ## Whole strings -/

theorem urldecodeBytes_urlencodeBytes (bytes : List UInt8) :
    urldecodeBytes (bytes.flatMap urlencodeByte) = bytes := by
  induction bytes with
  | nil =>
      rfl
  | cons byte bytes inductionHypothesis =>
      rw [List.flatMap_cons, urldecodeBytes_urlencodeByte,
        inductionHypothesis]

theorem urlencodeBytes_length (bytes : List UInt8) :
    (bytes.flatMap urlencodeByte).length ≤ bytes.length * 3 := by
  induction bytes with
  | nil =>
      exact Nat.le_refl _
  | cons byte bytes inductionHypothesis =>
      have first := urlencodeByte_length byte
      rw [List.flatMap_cons, List.length_append, List.length_cons]
      omega

theorem urldecodeBytes_length (bytes : List UInt8) :
    (urldecodeBytes bytes).length ≤ bytes.length := by
  induction bytes using urldecodeBytes.induct with
  | case1 high low rest inductionHypothesis =>
      rw [urldecodeBytes_escape]
      simp only [List.length_cons]
      omega
  | case2 byte high low rest plain inductionHypothesis =>
      rw [urldecodeBytes_plain plain, List.length_cons, List.length_cons]
      omega
  | case3 rest short inductionHypothesis =>
      rw [urldecodeBytes.eq_2 _ _ short, if_pos rfl, List.length_cons]
      exact Nat.le_succ_of_le inductionHypothesis
  | case4 byte rest short plain inductionHypothesis =>
      rw [urldecodeBytes_plain plain, List.length_cons, List.length_cons]
      omega
  | case5 =>
      exact Nat.le_refl _

/-- A string stored with its terminator in a block that is large enough is
read back, and no store misses the block. -/
theorem stored_string (around : Surroundings) {size : Nat}
    {bytes : List UInt8} (fits : bytes.length + 1 ≤ size) :
    ∃ rest, (around.block size).storeAll 0 (bytes ++ [0]) =
      .ofCells (bytes ++ 0 :: rest) := by
  have inside : 0 + (bytes ++ [0]).length ≤
      (around.block size).cells.length := by
    rw [Surroundings.block_length, List.length_append, Nat.zero_add]
    exact fits
  refine ⟨(around.block size).cells.drop (bytes ++ [0]).length, ?_⟩
  rw [Buffer.storeAll_of_le inside, Nat.zero_add, List.take_zero,
    List.nil_append, List.append_assoc]
  rfl

theorem urlencode_noNul (input : CString) :
    0 ∉ input.bytes.flatMap urlencodeByte := by
  intro member
  rcases List.mem_flatMap.mp member with ⟨byte, present, inside⟩
  have notNul : byte ≠ 0 := fun isNul => input.noNul (isNul ▸ present)
  exact urlencodeByte_noNul notNul inside

/-- What `string_urlencode` returns, and the block it fills. -/
theorem stringUrlencode_returns (around : Surroundings) (input : CString) :
    ∃ rest, stringUrlencode around input =
      .ofCells (input.bytes.flatMap urlencodeByte ++ 0 :: rest) := by
  apply stored_string
  have length := urlencodeBytes_length input.bytes
  rw [CString.strlen]
  omega

theorem stringUrldecode_returns (around : Surroundings) (input : CString) :
    ∃ rest, stringUrldecode around input =
      .ofCells (urldecodeBytes input.bytes ++ 0 :: rest) := by
  apply stored_string
  have length := urldecodeBytes_length input.bytes
  rw [CString.strlen]
  omega

/-- Decoding what was encoded gives the string back. -/
theorem urldecode_urlencode (encoding decoding : Surroundings)
    (input : CString) :
    (do
      let encoded ← readString (stringUrlencode encoding input).cells
      readString (stringUrldecode decoding encoded).cells) = .ok input := by
  rcases stringUrlencode_returns encoding input with ⟨rest, encoded⟩
  let middle : CString :=
    ⟨input.bytes.flatMap urlencodeByte, urlencode_noNul input⟩
  rcases stringUrldecode_returns decoding middle with ⟨others, decoded⟩
  have first : readString (stringUrlencode encoding input).cells =
      .ok middle := by
    rw [encoded]
    exact readString_stored middle rest
  rw [first, ok_bind, decoded, urldecodeBytes_urlencodeBytes]
  exact readString_stored input others

end UvgTorrent
