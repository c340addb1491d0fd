import UvgTorrent.Library.CString
import UvgTorrent.Library.MachineInt

/-!
# The bencode reader

A reader is a cursor `str` into a memory block, the place `start` it was
opened at, and a length.  A pointer is an offset into the block; `none` is
`NULL`.  The length of a new reader is carried over from the reader it is
taken from, counted from that reader's current cursor.

The mutual recursion of the source runs through one function, the skip to
the next item, which the two `get_next` functions take as an argument.
-/

namespace UvgTorrent

open CProgram CText MachineInt

/-- `bencode_t`, less the fields nothing reads. -/
structure Bencode where
  str : Option Nat
  start : Option Nat
  len : Int
  deriving DecidableEq, Repr

/-- The function that finds the end of the item at a position. -/
abbrev Iterate := Bencode → Option Nat → Exec (Option Nat)

def bencodeInit (str : Option Nat) (len : Int) : Bencode :=
  ⟨str, str, len⟩

/-- A pointer as a number.  The offset of `NULL` stands for an address that
no later step of the reader uses. -/
def offset : Option Nat → Int
  | some position => position
  | none => 0

/-- `__carry_length`. -/
def carryLength (be : Bencode) (pos : Option Nat) : Exec Int :=
  if 0 < be.len then
    .ok (toInt32 (be.len - (offset pos - offset be.str)))
  else
    .error .abort

section Reader

variable (memory : List UInt8)

/-- The digits at a position and the byte that ends them. -/
def digitRun (position : Nat) : Exec (List UInt8 × UInt8) := do
  let digits := (memory.drop position).takeWhile isDigit
  let stopper ← peek memory (position + digits.length)
  pure (digits, stopper)

/-- The number accumulated in an `int`. -/
def digitsInt32 (digits : List UInt8) : Int :=
  digits.foldl
    (fun slen digit => toInt32 (toInt32 (slen * 10) + digitValue digit)) 0

/-- The number accumulated in a `long`. -/
def digitsInt64 (digits : List UInt8) : Int :=
  digits.foldl
    (fun val digit => toInt64 (toInt64 (val * 10) + digitValue digit)) 0

/-- `__read_string_int`: the end of the number and its value, or `none` when
there is no digit. -/
def readStringInt (sp : Nat) : Exec (Option (Nat × Int)) := do
  let first ← peek memory sp
  let sign := if first = ch '-' then -1 else 1
  let sp := if first = ch '-' then sp + 1 else sp
  let lead ← peek memory sp
  if isDigit lead then
    let (digits, _) ← digitRun memory sp
    pure (some
      (sp + digits.length, toInt64 (digitsInt64 digits * sign)))
  else
    pure none

/-- `__read_string_len`: the position after the colon and the length, or
`none` when there is no digit. -/
def readStringLen : Option Nat → Exec (Option (Nat × Int))
  | none => .error .nullPointer
  | some sp => do
      let lead ← peek memory sp
      if isDigit lead then
        let (digits, stopper) ← digitRun memory sp
        if stopper = ch ':' then
          if 0 ≤ digitsInt32 digits then
            pure (some (sp + digits.length + 1, digitsInt32 digits))
          else
            .error .abort
        else
          .error .abort
      else
        pure none

/-- The test shared by `bencode_is_dict`, `bencode_is_int` and
`bencode_is_list`. -/
def startsWith (be : Bencode) (mark : Char) : Exec Bool :=
  match be.str with
  | none => pure false
  | some position => do
      let first ← peek memory position
      pure (first = ch mark)

def bencodeIsDict (be : Bencode) : Exec Bool :=
  startsWith memory be 'd'

def bencodeIsInt (be : Bencode) : Exec Bool :=
  startsWith memory be 'i'

def bencodeIsList (be : Bencode) : Exec Bool :=
  startsWith memory be 'l'

def bencodeIsString (be : Bencode) : Exec Bool :=
  match be.str with
  | none => .error .abort
  | some position => do
      let lead ← peek memory position
      if isDigit lead then
        let (_, stopper) ← digitRun memory position
        pure (stopper = ch ':')
      else
        pure false

/-- `bencode_string_value`: the pointer to the bytes, `NULL` when they do
not fit, and the length. -/
def bencodeStringValue (be : Bencode) : Exec (Option Nat × Int) := do
  if ← bencodeIsString memory be then
    match ← readStringLen memory be.str with
    | none => .error .abort
    | some (sp, slen) =>
        if 0 < be.len then
          if offset be.start + be.len < sp + slen then
            pure (none, slen)
          else
            pure (some sp, slen)
        else
          .error .abort
  else
    .error .abort

/-- `bencode_int_value`; `none` is the return of 0. -/
def bencodeIntValue (be : Bencode) : Exec (Option Int) :=
  match be.str with
  | none => .error .nullPointer
  | some position => do
      match ← readStringInt memory (position + 1) with
      | none => pure none
      | some (last, val) =>
          let closing ← peek memory last
          if closing = ch 'e' then
            pure (some val)
          else
            .error .abort

def bencodeDictHasNext (be : Bencode) : Exec Bool :=
  match be.str with
  | none => pure false
  | some sp => do
      let first ← peek memory sp
      if first = ch 'e' ∨ first = 0 ∨ first = ch '\r' then
        pure false
      else
        let second ←
          if first = ch 'd' then peek memory (sp + 1) else pure first
        if first = ch 'd' ∧ second = ch 'e' then
          pure false
        else
          pure (decide (sp < offset be.start + be.len - 1))

/-- What `bencode_dict_get_next` hands out when it returns 1. -/
structure DictItem where
  be : Bencode
  item : Bencode
  key : Option Nat
  klen : Int

/-- The second half of `bencode_dict_get_next`: the value behind the key is
opened and skipped.  A key without a digit leaves `keyin` at `NULL` and
`len` at 0. -/
def dictItem (iterate : Iterate) (be : Bencode)
    (read : Option (Nat × Int)) : Exec (Option DictItem) := do
  let keyin := read.map Prod.fst
  let len := (read.map Prod.snd).getD 0
  let value := keyin.map (fun position : Nat => (position + len).toNat)
  let item := bencodeInit value (← carryLength be value)
  match ← iterate be value with
  | none => pure none
  | some next => pure (some ⟨{ be with str := some next }, item, keyin, len⟩)

/-- `bencode_dict_get_next`; `none` is the return of 0, after which no
caller uses the reader. -/
def bencodeDictGetNext (iterate : Iterate) (be : Bencode) :
    Exec (Option DictItem) := do
  let first ← deref memory be.str
  if first = ch 'e' then
    .error .abort
  else
    let sp := if first = ch 'd' then be.str.map (· + 1) else be.str
    let head ← deref memory sp
    if head = ch 'e' then
      pure none
    else
      let read ← readStringLen memory sp
      dictItem iterate be read

/-- `bencode_list_has_next`, which steps into an empty list. -/
def bencodeListHasNext (be : Bencode) : Exec (Bool × Bencode) :=
  match be.str with
  | none => .error .nullPointer
  | some sp => do
      let first ← peek memory sp
      let second ←
        if first = ch 'l' ∧ be.str = be.start then
          peek memory (sp + 1)
        else
          pure first
      if first = ch 'l' ∧ be.str = be.start ∧ second = ch 'e' then
        pure (false, { be with str := some (sp + 1) })
      else
        pure (decide (first ≠ ch 'e'), be)

/-- The three returns of `bencode_list_get_next`: 0 leaves the item as it
was, -1 sets the cursor to `NULL`. -/
inductive ListNext where
  | ended (be : Bencode)
  | failed (be item : Bencode)
  | found (be item : Bencode)

def bencodeListGetNext (iterate : Iterate) (be : Bencode) :
    Exec ListNext :=
  match be.str with
  | none => pure (.ended be)
  | some position => do
      let first ← peek memory position
      if first = ch 'e' then
        pure (.ended be)
      else
        let sp :=
          if first = ch 'l' ∧ be.start = be.str then position + 1
          else position
        let head ← peek memory sp
        if head = ch 'e' then
          pure (.ended { be with str := some sp })
        else
          let item := bencodeInit (some sp) (← carryLength be (some sp))
          match ← iterate be (some sp) with
          | none => pure (.failed { be with str := none } item)
          | some next =>
              pure (.found { be with str := some next } item)

/-- The loop that walks to the end of a dictionary; `none` when an entry is
invalid. -/
def skipDict (iterate : Iterate) : Nat → Bencode → Exec (Option Bencode)
  | 0, _ => .error .unfinished
  | fuel + 1, iter => do
      if ← bencodeDictHasNext memory iter then
        match ← bencodeDictGetNext memory iterate iter with
        | none => pure none
        | some next => skipDict iterate fuel next.be
      else
        pure (some iter)

def skipList (iterate : Iterate) : Nat → Bencode → Exec (Option Bencode)
  | 0, _ => .error .unfinished
  | fuel + 1, iter => do
      let (more, iter) ← bencodeListHasNext memory iter
      if more then
        match ← bencodeListGetNext memory iterate iter with
        | .failed _ _ => pure none
        | .ended next => skipList iterate fuel next
        | .found next _ => skipList iterate fuel next
      else
        pure (some iter)

/-- The end of a dictionary whose walk stopped at `iter`: one past the
cursor, or two when the dictionary is empty. -/
def pastDict (iter : Bencode) : Exec (Option Nat) := do
  let first ← deref memory iter.str
  let second ←
    if first = ch 'd' then deref memory (iter.str.map (· + 1))
    else pure first
  if first = ch 'd' ∧ second = ch 'e' then
    pure (iter.str.map (· + 2))
  else
    pure (iter.str.map (· + 1))

def pastInt (iter : Bencode) : Exec (Option Nat) :=
  match iter.str with
  | none => .error .nullPointer
  | some position => do
      match ← readStringInt memory (position + 1) with
      | none => pure none
      | some (last, _) =>
          let closing ← peek memory last
          if closing = ch 'e' then
            pure (some (last + 1))
          else
            .error .abort

/-- The branches of `__iterate_to_next_string_pos` on the reader it has
opened. -/
def skipItem (iterate : Iterate) (fuel : Nat) (iter : Bencode) :
    Exec (Option Nat) := do
  if ← bencodeIsDict memory iter then
    match ← skipDict memory iterate fuel iter with
    | none => pure none
    | some iter => pastDict memory iter
  else if ← bencodeIsList memory iter then
    match ← skipList memory iterate fuel iter with
    | none => pure none
    | some iter => pure (iter.str.map (· + 1))
  else if ← bencodeIsString memory iter then
    let (str, len) ← bencodeStringValue memory iter
    pure (str.map (fun position : Nat => (position + len).toNat))
  else if ← bencodeIsInt memory iter then
    pastInt memory iter
  else
    pure none

/-- `__iterate_to_next_string_pos`, with at most `fuel` nested calls and
loop rounds; `none` is the return of `NULL`. -/
def iterateToNextStringPos : Nat → Iterate
  | 0, _, _ => .error .unfinished
  | fuel + 1, be, sp => do
      let len ← carryLength be sp
      skipItem memory (iterateToNextStringPos fuel) fuel
        (bencodeInit sp len)

end Reader

end UvgTorrent
