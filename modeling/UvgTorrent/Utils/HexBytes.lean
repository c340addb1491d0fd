import UvgTorrent.Library.Depth
import UvgTorrent.Peer.Handshake
import UvgTorrent.Utils.NetUtils

/-!
# Hexadecimal text in bytes

`hex_to_int8_t` counts with an eight-bit index, which turns negative behind
the sixty-fourth pair of digits.  Each pair is put into network order as a
number of sixteen bits before it is stored in a byte.
-/

namespace UvgTorrent

open CProgram CText CArray MachineInt

/-! ## The function -/

/-- The table `hashmap`. -/
def hexTable : List Int8 :=
  List.replicate 48 0 ++ [0, 1, 2, 3, 4, 5, 6, 7, 8, 9] ++
    List.replicate 7 0 ++ [10, 11, 12, 13, 14, 15] ++
    List.replicate 26 0 ++ [10, 11, 12, 13, 14, 15] ++
    List.replicate 153 0

/-- `hashmap[idx]`; a negative index lies in front of the table. -/
def hexLookup (idx : Int8) : Exec Int8 :=
  if 0 ≤ idx then
    match hexTable[idx.toInt.toNat]? with
    | some digit => .ok digit
    | none => .error .readPast
  else
    .error .readPast

/-- `str[index]` as an `int8_t`. -/
def charAt (str : CString) (index : Int) : Exec Int8 :=
  if 0 ≤ index then do
    let byte ← peek (str.bytes ++ [0]) index.toNat
    pure byte.toInt8
  else
    .error .readPast

/-- The byte that the loop stores for two digits. -/
def decodedByte (order : ByteOrder) (high low : Int8) : Int8 :=
  let shifted : Int8 := (high.toInt32 <<< 4).toInt8
  let joined : Int32 := shifted.toInt32 ||| low.toInt32
  (htons order joined.toUInt32.toUInt16).toUInt8.toInt8

/-- An `int8_t` that is compared with a `size_t`. -/
def asSize (pos : Int8) : UInt64 :=
  pos.toInt64.toUInt64

def hexLoop (order : ByteOrder) (str : CString) (blen : UInt64) :
    Int8 → Buffer → Nat → Exec Buffer
  | _, _, 0 => .error .unfinished
  | pos, bytes, depth + 1 =>
      if asSize pos < blen * 2 ∧ (asSize pos).toNat < str.strlen then do
        let idx0 ← charAt str pos.toInt
        let idx1 ← charAt str (pos.toInt + 1)
        let high ← hexLookup idx0
        let low ← hexLookup idx1
        let bytes ← bytes.copyAt (pos.toInt.tdiv 2)
          [(decodedByte order high low).toUInt8]
        hexLoop order str blen (pos + 2) bytes depth
      else
        .ok bytes

/-- `hex_to_int8_t`, with at most `depth` tests of its loop. -/
def hexToInt8T (order : ByteOrder) (str : CString) (bytes : Buffer)
    (blen : UInt64) (depth : Nat) : Exec (Int8 × Buffer) := do
  let cleared ← bytes.copyAt 0 (List.replicate blen.toNat 0)
  let after ← hexLoop order str blen 0 cleared depth
  pure (0, after)

/-! ## What it should do -/

/-- The character at a place of a string. -/
def digitAt (str : CString) (index : Nat) : UInt8 :=
  str.bytes.getD index 0

/-- The number that a pair of digits denotes. -/
def pairValue (str : CString) (k : Nat) : Nat :=
  16 * (hexValue (digitAt str (2 * k))).toNat +
    (hexValue (digitAt str (2 * k + 1))).toNat

/-- Every byte is the number of its two digits. -/
def HexDecoded (str : CString) (blen : UInt64) (after : Buffer) : Prop :=
  ∀ k < blen.toNat, ∃ byte,
    after.cells[k]? = some byte ∧ byte.toNat = pairValue str k

/-- The digits survive the index and the byte order: the index does not
return into a string of about `2 ^ 64` characters, and a pair stands for zero
or is read by the loop and, on a little-endian host, stands for `255`. -/
structure HexSurvives (order : ByteOrder) (str : CString)
    (blen : UInt64) : Prop where
  turns : (blen * 2).toNat ≤ 2 ^ 64 - 128
  pairs : ∀ k < blen.toNat, pairValue str k = 0 ∨
    k < 64 ∧ 2 * k < (blen * 2).toNat ∧
      (order = .big ∨ pairValue str k = 255)

/-! ## One pair -/

section Pairs

theorem decodedByte_big : ∀ high low : Fin 16,
    (decodedByte .big (Int8.ofNat high) (Int8.ofNat low)).toUInt8.toNat =
      16 * high.val + low.val := by
  decide +kernel

/-- Sixteen bits in network order begin with the sign of the first digit. -/
theorem decodedByte_little : ∀ high low : Fin 16,
    (decodedByte .little (Int8.ofNat high) (Int8.ofNat low)).toUInt8.toNat =
      if 8 ≤ high.val then 255 else 0 := by
  decide +kernel

theorem decodedByte_correct_iff (order : ByteOrder) (high low : Fin 16) :
    (decodedByte order (Int8.ofNat high) (Int8.ofNat low)).toUInt8.toNat =
        16 * high.val + low.val ↔
      16 * high.val + low.val = 0 ∨ order = .big ∨
        16 * high.val + low.val = 255 := by
  have upper := high.isLt
  have lower := low.isLt
  cases order with
  | big =>
      rw [decodedByte_big]
      tauto
  | little =>
      rw [decodedByte_little, or_iff_right (a := ByteOrder.little = .big)
        (by decide)]
      split <;> omega

/-- The table has a digit's value in either case. -/
theorem hexLookup_digit (digit : UInt8) : isHexDigit digit = true →
    hexLookup digit.toInt8 = .ok (Int8.ofNat (hexValue digit).toNat) := by
  revert digit
  apply forall_byte
  decide +kernel

end Pairs

/-! ## The loop -/

section Loop

variable {order : ByteOrder} {str : CString} {blen : UInt64}
  {bytes : Buffer} {k : Nat}

/-- The string has a pair of digits for every byte. -/
structure HexText (str : CString) (blen : UInt64) : Prop where
  digits : ∀ digit ∈ str.bytes.take (2 * blen.toNat),
    isHexDigit digit = true
  long : 2 * blen.toNat ≤ str.strlen

/-- The byte that the loop makes of a pair. -/
def pairByte (order : ByteOrder) (str : CString) (k : Nat) : UInt8 :=
  (decodedByte order
    (Int8.ofNat (hexValue (digitAt str (2 * k))).toNat)
    (Int8.ofNat (hexValue (digitAt str (2 * k + 1))).toNat)).toUInt8

theorem doubled_le (blen : UInt64) :
    (blen * 2).toNat ≤ 2 * blen.toNat := by
  have product : (blen * 2).toNat = blen.toNat * 2 % 2 ^ 64 :=
    UInt64.toNat_mul blen 2
  omega

theorem asSize_even : ∀ k : Fin 64,
    (asSize (Int8.ofNat (2 * k))).toNat = 2 * k.val ∧
      (Int8.ofNat (2 * k)).toInt = 2 * k.val := by
  decide +kernel

/-- Behind the last index there is a negative one. -/
theorem asSize_turned :
    (asSize (Int8.ofNat (2 * 64))).toNat = 2 ^ 64 - 128 ∧
      (Int8.ofNat (2 * 64)).toInt = -128 := by
  decide +kernel

theorem HexText.digit (input : HexText str blen) {index : Nat}
    (inside : index < 2 * blen.toNat) :
    isHexDigit (digitAt str index) = true ∧
      charAt str index = .ok (digitAt str index).toInt8 := by
  have bound : index < str.bytes.length :=
    Nat.lt_of_lt_of_le inside input.long
  have there : str.bytes[index]? = some (digitAt str index) := by
    rw [digitAt, List.getD_eq_getElem?_getD, List.getElem?_eq_getElem bound]
    rfl
  constructor
  · apply input.digits
    apply List.mem_of_getElem? (i := index)
    rw [List.getElem?_take_of_lt inside]
    exact there
  · rw [charAt, if_pos (Int.natCast_nonneg index), Int.toNat_natCast, peek,
      List.getElem?_append_left bound, there]
    rfl

/-- The index has come to the doubled length. -/
theorem hexLoop_done {pos : Int8}
    (done : (blen * 2).toNat ≤ (asSize pos).toNat) (depth : Nat) :
    hexLoop order str blen pos bytes (depth + 1) = .ok bytes := by
  rw [hexLoop, if_neg]
  intro goesOn
  have below := UInt64.lt_iff_toNat_lt.mp goesOn.1
  omega

/-- An index below the doubled length lies in the string. -/
theorem HexText.goesOn (input : HexText str blen) {pos : Int8}
    (before : (asSize pos).toNat < (blen * 2).toNat) :
    asSize pos < blen * 2 ∧ (asSize pos).toNat < str.strlen := by
  have bound := doubled_le blen
  have long := input.long
  rw [UInt64.lt_iff_toNat_lt]
  omega

/-- One round stores a pair and goes on behind it. -/
theorem hexLoop_round (input : HexText str blen)
    (before : 2 * k < (blen * 2).toNat) (inside : k < 64)
    (room : k < bytes.cells.length) (depth : Nat) :
    hexLoop order str blen (Int8.ofNat (2 * k)) bytes (depth + 1) =
      hexLoop order str blen (Int8.ofNat (2 * (k + 1)))
        { bytes with cells := bytes.cells.set k (pairByte order str k) }
        depth := by
  have bound := doubled_le blen
  rcases asSize_even ⟨k, inside⟩ with ⟨size, value⟩
  simp only at size value
  have goesOn := input.goesOn (lt_of_eq_of_lt size before)
  rcases @HexText.digit _ _ input (2 * k) (by omega) with
    ⟨highHex, highRead⟩
  rcases @HexText.digit _ _ input (2 * k + 1) (by omega) with
    ⟨lowHex, lowRead⟩
  have stored : bytes.copyAt ((2 * k : Int).tdiv 2)
      [pairByte order str k] = .ok { bytes with
        cells := bytes.cells.set k (pairByte order str k) } := by
    rw [Int.mul_tdiv_cancel_left (k : Int) (by decide),
      Buffer.copyAt_natCast, Buffer.copyIn_of_le room,
      List.set_eq_take_append_cons_drop, if_pos room, List.append_assoc]
    rfl
  have next : Int8.ofNat (2 * k) + 2 = Int8.ofNat (2 * (k + 1)) := by
    rw [Nat.mul_succ, Int8.ofNat_add]
    rfl
  push_cast at value highRead lowRead
  rw [hexLoop, if_pos goesOn, value, highRead, ok_bind, lowRead, ok_bind,
    hexLookup_digit _ highHex, ok_bind, hexLookup_digit _ lowHex, ok_bind,
    next]
  change (bytes.copyAt _ [pairByte order str k] >>= _) = _
  rw [stored, ok_bind]

/-- From a negative index the loop reads in front of the string. -/
theorem hexLoop_turned (input : HexText str blen)
    (turned : 2 ^ 64 - 128 < (blen * 2).toNat) (depth : Nat) :
    hexLoop order str blen (Int8.ofNat (2 * 64)) bytes (depth + 1) =
      .error .readPast := by
  rcases asSize_turned with ⟨size, value⟩
  have goesOn := input.goesOn (lt_of_eq_of_lt size turned)
  rw [hexLoop, if_pos goesOn, value]
  rfl

theorem hexLoop_deepens (pos : Int8) (bytes : Buffer) (depth : Nat) :
    Deepens (hexLoop order str blen pos bytes depth)
      (hexLoop order str blen pos bytes (depth + 1)) := by
  induction depth generalizing pos bytes with
  | zero =>
      exact .inl rfl
  | succ depth inductionHypothesis =>
      rw [hexLoop, hexLoop]
      split
      · apply Deepens.bind (.refl _)
        intro idx0
        apply Deepens.bind (.refl _)
        intro idx1
        apply Deepens.bind (.refl _)
        intro high
        apply Deepens.bind (.refl _)
        intro low
        apply Deepens.bind (.refl _)
        intro stored
        exact inductionHypothesis _ stored
      · exact .refl _

/-- The rounds from a pair on store what is left to be read, and leave the
other bytes alone. -/
theorem hexLoop_run (input : HexText str blen)
    (turns : (blen * 2).toNat ≤ 2 ^ 64 - 128)
    (room : blen.toNat ≤ bytes.cells.length) {rounds : Nat}
    (left : k + rounds = 64) :
    ∃ after,
      hexLoop order str blen (Int8.ofNat (2 * k)) bytes (rounds + 1) =
        .ok after ∧
      ∀ j, after.cells[j]? =
        if k ≤ j ∧ j < 64 ∧ 2 * j < (blen * 2).toNat then
          some (pairByte order str j)
        else
          bytes.cells[j]? := by
  have bound := doubled_le blen
  induction rounds generalizing k bytes with
  | zero =>
      have last : k = 64 := left
      subst last
      have done := turns.trans_eq asSize_turned.1.symm
      refine ⟨bytes, hexLoop_done done 0, fun j => ?_⟩
      rw [if_neg (by omega)]
  | succ rounds inductionHypothesis =>
      by_cases before : 2 * k < (blen * 2).toNat
      · have inside : k < bytes.cells.length := by
          omega
        rcases @inductionHypothesis
            { bytes with cells := bytes.cells.set k (pairByte order str k) }
            (k + 1) (by simpa using room) (by omega) with
          ⟨after, ran, cells⟩
        refine ⟨after, ?_, fun j => ?_⟩
        · rw [hexLoop_round input before (by omega) inside]
          exact ran
        · rw [cells j]
          simp only [List.getElem?_set]
          by_cases here : k = j
          · subst here
            rw [if_neg (by omega), if_pos rfl, if_pos inside,
              if_pos ⟨Nat.le_refl k, by omega, before⟩]
          · rw [if_neg here]
            congr 1
            apply propext
            omega
      · have early : k < 64 := by
          omega
        have done := (Nat.not_lt.mp before).trans_eq
          (asSize_even ⟨k, early⟩).1.symm
        refine ⟨bytes, hexLoop_done done _, fun j => ?_⟩
        rw [if_neg (by omega)]

/-- An index that returns into the string never comes to an end there. -/
theorem hexLoop_leaves (input : HexText str blen)
    (turned : 2 ^ 64 - 128 < (blen * 2).toNat)
    (room : blen.toNat ≤ bytes.cells.length) {rounds : Nat}
    (left : k + rounds = 64) (depth : Nat) (after : Buffer) :
    hexLoop order str blen (Int8.ofNat (2 * k)) bytes depth ≠
      .ok after := by
  have bound := doubled_le blen
  induction rounds generalizing k bytes depth with
  | zero =>
      have last : k = 64 := left
      subst last
      cases depth with
      | zero =>
          nofun
      | succ depth =>
          rw [hexLoop_turned input turned]
          nofun
  | succ rounds inductionHypothesis =>
      cases depth with
      | zero =>
          nofun
      | succ depth =>
          rw [hexLoop_round input (by omega) (by omega) (by omega)]
          exact inductionHypothesis (by simpa using room) (by omega) depth

end Loop

/-! ## The whole function -/

section Function

variable {order : ByteOrder} {str : CString} {blen : UInt64}
  {bytes : Buffer}

theorem pairByte_correct_iff (input : HexText str blen) {k : Nat}
    (inside : k < blen.toNat) :
    (pairByte order str k).toNat = pairValue str k ↔
      pairValue str k = 0 ∨ order = .big ∨ pairValue str k = 255 := by
  have highHex := (@HexText.digit _ _ input (2 * k) (by omega)).1
  have lowHex := (@HexText.digit _ _ input (2 * k + 1) (by omega)).1
  exact decodedByte_correct_iff order
    ⟨(hexValue (digitAt str (2 * k))).toNat, hexValue_lt _ highHex⟩
    ⟨(hexValue (digitAt str (2 * k + 1))).toNat, hexValue_lt _ lowHex⟩

/-- What the function leaves for a pair: the byte that the loop makes of it,
or the zero of `bzero`. -/
def storedByte (order : ByteOrder) (str : CString) (blen : UInt64)
    (k : Nat) : UInt8 :=
  if k < 64 ∧ 2 * k < (blen * 2).toNat then pairByte order str k else 0

theorem storedByte_correct_iff (input : HexText str blen) {k : Nat}
    (inside : k < blen.toNat) :
    (storedByte order str blen k).toNat = pairValue str k ↔
      pairValue str k = 0 ∨ k < 64 ∧ 2 * k < (blen * 2).toNat ∧
        (order = .big ∨ pairValue str k = 255) := by
  rw [storedByte]
  by_cases read : k < 64 ∧ 2 * k < (blen * 2).toNat
  · rw [if_pos read, pairByte_correct_iff input inside]
    tauto
  · rw [if_neg read, UInt8.toNat_zero, eq_comm]
    tauto

/-- `bzero`. -/
theorem copyAt_cleared (room : blen.toNat ≤ bytes.cells.length) :
    ∃ cleared,
      bytes.copyAt 0 (List.replicate blen.toNat 0) = .ok cleared ∧
      blen.toNat ≤ cleared.cells.length ∧
      ∀ k < blen.toNat, cleared.cells[k]? = some 0 := by
  refine ⟨⟨List.replicate blen.toNat 0 ++ bytes.cells.drop blen.toNat,
    bytes.stray⟩, ?_, ?_, fun k inside => ?_⟩
  · have fits : 0 + (List.replicate blen.toNat (0 : UInt8)).length ≤
        bytes.cells.length := by
      rw [List.length_replicate]
      omega
    have copied := Buffer.copyIn_of_le fits
    rw [List.length_replicate, Nat.zero_add] at copied
    exact copied
  · rw [List.length_append, List.length_replicate]
    exact Nat.le_add_right _ _
  · rw [List.getElem?_append_left (by simpa using inside),
      List.getElem?_replicate_of_lt inside]

theorem hexToInt8T_deepens (depth : Nat) :
    Deepens (hexToInt8T order str bytes blen depth)
      (hexToInt8T order str bytes blen (depth + 1)) := by
  apply Deepens.bind (.refl _)
  intro cleared
  apply Deepens.bind (hexLoop_deepens 0 cleared depth)
  intro after
  exact .refl _

/-- The pairs that the loop reads are stored as it makes them, and the bytes
behind them are zero. -/
theorem hexToInt8T_returns (input : HexText str blen)
    (room : blen.toNat ≤ bytes.cells.length)
    (turns : (blen * 2).toNat ≤ 2 ^ 64 - 128) :
    ∃ after, Returns (hexToInt8T order str bytes blen) (0, after) ∧
      ∀ k < blen.toNat,
        after.cells[k]? = some (storedByte order str blen k) := by
  rcases copyAt_cleared room with ⟨cleared, ran, fits, zeros⟩
  rcases @hexLoop_run order _ _ cleared 0 input turns fits 64
      (Nat.zero_add 64) with
    ⟨after, looped, cells⟩
  refine ⟨after, ⟨65, ?_⟩, fun k inside => ?_⟩
  · rw [hexToInt8T, ran, ok_bind]
    exact (bind_eq_ok_iff _ _ _).mpr ⟨after, looped, rfl⟩
  · rw [cells k, zeros k inside, storedByte]
    by_cases read : k < 64 ∧ 2 * k < (blen * 2).toNat
    · rw [if_pos ⟨Nat.zero_le k, read⟩, if_pos read]
    · rw [if_neg (fun whole => read whole.2), if_neg read]

theorem hexToInt8T_turns (input : HexText str blen)
    (room : blen.toNat ≤ bytes.cells.length) {after : Int8 × Buffer}
    (returned : Returns (hexToInt8T order str bytes blen) after) :
    (blen * 2).toNat ≤ 2 ^ 64 - 128 := by
  rcases returned with ⟨depth, answered⟩
  rcases copyAt_cleared room with ⟨cleared, ran, fits, _⟩
  by_contra turned
  rw [hexToInt8T, ran, ok_bind] at answered
  rcases (bind_eq_ok_iff _ _ _).mp answered with ⟨buffer, looped, _⟩
  exact @hexLoop_leaves order _ _ cleared 0 input (by omega) fits 64
    (Nat.zero_add 64) depth buffer looped

/-- The digits come out right exactly when they survive the index and the
byte order. -/
theorem hexToInt8T_decodes_iff (order : ByteOrder)
    (input : HexText str blen) (room : blen.toNat ≤ bytes.cells.length) :
    (∃ after, Returns (hexToInt8T order str bytes blen) (0, after) ∧
        HexDecoded str blen after) ↔
      HexSurvives order str blen := by
  constructor
  · intro decodes
    rcases decodes with ⟨after, returned, decoded⟩
    have turns := hexToInt8T_turns input room returned
    rcases @hexToInt8T_returns order _ _ _ input room turns with
      ⟨found, again, cells⟩
    have same := Returns.unique hexToInt8T_deepens returned again
    cases same
    refine ⟨turns, fun k inside => ?_⟩
    rcases decoded k inside with ⟨byte, held, value⟩
    rw [cells k inside] at held
    cases held
    exact (storedByte_correct_iff input inside).mp value
  · intro survives
    rcases @hexToInt8T_returns order _ _ _ input room survives.turns with
      ⟨after, returned, cells⟩
    refine ⟨after, returned, fun k inside => ⟨_, cells k inside, ?_⟩⟩
    exact (storedByte_correct_iff input inside).mpr
      (survives.pairs k inside)

end Function

/-- The text `00ff`. -/
def zeroAndAll : CString := ⟨text "00ff", by decide⟩

theorem hexToInt8T_decodes_zeroAndAll :
    (∃ after, Returns
        (hexToInt8T .little zeroAndAll (Buffer.zeroed 20) 2) (0, after) ∧
        HexDecoded zeroAndAll 2 after) ↔
      HexSurvives .little zeroAndAll 2 :=
  hexToInt8T_decodes_iff .little
    ⟨List.all_eq_true.mp (by decide), by decide⟩ (by decide)

/-- The text `10`. -/
def sixteen : CString := ⟨text "10", by decide⟩

/-- On a little-endian host `10` becomes the byte zero. -/
theorem hexToInt8T_loses_sixteen :
    HexText sixteen 1 ∧
      ¬ ∃ after, Returns
        (hexToInt8T .little sixteen (Buffer.zeroed 20) 1) (0, after) ∧
        HexDecoded sixteen 1 after := by
  refine ⟨⟨List.all_eq_true.mp (by decide), by decide⟩, ?_⟩
  rintro ⟨after, returned, decoded⟩
  have ran : Returns (hexToInt8T .little sixteen (Buffer.zeroed 20) 1)
      (0, Buffer.zeroed 20) :=
    ⟨2, by decide +kernel⟩
  cases Returns.unique hexToInt8T_deepens returned ran
  rcases decoded 0 (by decide) with ⟨byte, held, value⟩
  cases held
  exact absurd value (by decide)

end UvgTorrent
