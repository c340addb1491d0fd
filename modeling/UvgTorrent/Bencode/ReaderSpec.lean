import UvgTorrent.Bencode.Grammar

/-!
# What the reader does, byte by byte

One equation for each function of the reader, on a block that ends with a
`NUL`: the run is a case distinction on bytes of the block.
-/

namespace UvgTorrent

open CProgram CText MachineInt

/-- The block ends with a `NUL`. -/
def Terminated (memory : List UInt8) : Prop :=
  ∃ content, memory = content ++ [0]

/-- A reader opened at `start` whose window ends at `last`. -/
def readerAt (start : Nat) (last : Int) (position : Nat) : Bencode :=
  ⟨some position, some start, last - start⟩

/-- The sizes for which no length of the reader wraps. -/
structure InRange (start : Nat) (last : Int) (position : Nat) : Prop where
  order : start ≤ position
  window : last - start < 2 ^ 31

section Bytes

variable {memory : List UInt8}

theorem peek_of_lt {position : Nat} (inside : position < memory.length) :
    ∃ byte, memory[position]? = some byte ∧
      peek memory position = .ok byte := by
  refine ⟨memory[position], List.getElem?_eq_getElem inside, ?_⟩
  rw [peek_eq_ok_iff]
  exact List.getElem?_eq_getElem inside

theorem peek_of_byte {position : Nat} {byte : UInt8}
    (held : memory[position]? = some byte) :
    peek memory position = .ok byte :=
  (peek_eq_ok_iff _ _ _).mpr held

theorem peek_of_le {position : Nat} (outside : memory.length ≤ position) :
    peek memory position = .error .readPast := by
  unfold peek
  rw [List.getElem?_eq_none outside]

theorem Terminated.next_lt (terminated : Terminated memory)
    {position : Nat} {byte : UInt8}
    (held : memory[position]? = some byte) (nonzero : byte ≠ 0) :
    position + 1 < memory.length := by
  obtain ⟨content, rfl⟩ := terminated
  have inside := lt_length_of_byte held
  rw [List.length_append, List.length_singleton] at inside ⊢
  by_contra outside
  have place : position = content.length := by omega
  subst place
  rw [List.getElem?_concat_length] at held
  exact nonzero (Option.some.inj held).symm

theorem isDigit_zero : isDigit 0 = false := by
  decide

theorem takeWhile_isDigit_length_le (content : List UInt8) :
    ((content ++ [0]).takeWhile isDigit).length ≤ content.length := by
  induction content with
  | nil =>
      simp [isDigit_zero]
  | cons byte rest inductionHypothesis =>
      rw [List.cons_append, List.takeWhile_cons]
      split
      · rw [List.length_cons, List.length_cons]
        omega
      · simp

theorem Terminated.digits_lt (terminated : Terminated memory)
    {position : Nat} (inside : position < memory.length) :
    position + (digitsAt memory position).length < memory.length := by
  obtain ⟨content, rfl⟩ := terminated
  rw [List.length_append, List.length_singleton] at inside ⊢
  have before : position ≤ content.length := by omega
  have bound := takeWhile_isDigit_length_le (content.drop position)
  rw [List.length_drop] at bound
  unfold digitsAt
  rw [List.drop_append_of_le_length before]
  omega

theorem digitRun_of_stop {position : Nat} {stopper : UInt8}
    (stops : memory[position + (digitsAt memory position).length]? =
      some stopper) :
    digitRun memory position =
      .ok (digitsAt memory position, stopper) := by
  unfold digitRun
  change (peek memory (position + (digitsAt memory position).length) >>= _)
    = _
  rw [peek_of_byte stops]
  rfl

theorem digitRun_eq (terminated : Terminated memory) {position : Nat}
    (inside : position < memory.length) :
    ∃ stopper,
      memory[position + (digitsAt memory position).length]? =
          some stopper ∧
        digitRun memory position =
          .ok (digitsAt memory position, stopper) := by
  obtain ⟨stopper, held, _⟩ := peek_of_lt (terminated.digits_lt inside)
  exact ⟨stopper, held, digitRun_of_stop held⟩

theorem digitsAt_eq_nil_iff {position : Nat} {byte : UInt8}
    (held : memory[position]? = some byte) :
    digitsAt memory position = [] ↔ isDigit byte = false := by
  obtain ⟨inside, value⟩ := List.getElem?_eq_some_iff.mp held
  unfold digitsAt
  rw [List.drop_eq_getElem_cons inside, value, List.takeWhile_cons]
  cases isDigit byte <;> simp

/-- The first byte of a run of digits. -/
theorem digit_of_digitsAt {position : Nat}
    (digits : digitsAt memory position ≠ []) :
    ∃ lead, memory[position]? = some lead ∧ isDigit lead = true := by
  have inside : position < memory.length := by
    by_contra outside
    exact digits (digitsAt_eq_nil_of_le (Nat.not_lt.mp outside))
  obtain ⟨lead, held, _⟩ := peek_of_lt inside
  refine ⟨lead, held, ?_⟩
  rw [Ne, digitsAt_eq_nil_iff held, Bool.not_eq_false] at digits
  exact digits

theorem readStringLen_of_lengthAt {position body count : Nat}
    (length : LengthAt memory position body count) :
    readStringLen memory (some position) =
      .ok (some (body, (count : Int))) := by
  obtain ⟨lead, held, digit⟩ := digit_of_digitsAt length.digits
  have positive : 0 ≤ digitsInt32 (digitsAt memory position) := by
    rw [length.value]
    omega
  simp only [readStringLen, peek_of_byte held, ok_bind, digit, if_true,
    digitRun_of_stop length.colon, positive]
  rw [length.value, length.body]
  rfl

end Bytes

section Scalars

variable {memory : List UInt8} (terminated : Terminated memory)
include terminated

theorem readStringLen_eq {position : Nat}
    (inside : position < memory.length) :
    readStringLen memory (some position) =
      if digitsAt memory position = [] then
        .ok none
      else if
          memory[position + (digitsAt memory position).length]? =
              some (ch ':') ∧
            0 ≤ digitsInt32 (digitsAt memory position) then
        .ok (some
          (position + (digitsAt memory position).length + 1,
            digitsInt32 (digitsAt memory position)))
      else
        .error .abort := by
  obtain ⟨lead, held, peeked⟩ := peek_of_lt inside
  obtain ⟨stopper, stops, ran⟩ := digitRun_eq terminated inside
  have empty := digitsAt_eq_nil_iff held
  simp only [readStringLen, peeked, ok_bind, ran, empty, stops]
  by_cases digit : isDigit lead = true
  · by_cases colon : stopper = ch ':'
    · by_cases positive : 0 ≤ digitsInt32 (digitsAt memory position) <;>
        simp [digit, colon, positive]
    · simp [digit, colon]
  · simp [digit]

theorem lengthAt_of_readStringLen {position body : Nat} {count : Int}
    (inside : position < memory.length)
    (read : readStringLen memory (some position) = .ok (some (body, count))) :
    ∃ size : Nat, count = size ∧ LengthAt memory position body size := by
  rw [readStringLen_eq terminated inside] at read
  split at read
  · cases read
  · rename_i nonempty
    split at read
    · rename_i shape
      cases read
      refine ⟨(digitsInt32 (digitsAt memory position)).toNat, ?_, ?_⟩
      · omega
      · exact ⟨nonempty, shape.1, by omega, rfl⟩
    · cases read

theorem Terminated.int_lt {position : Nat}
    (opens : memory[position]? = some (ch 'i')) :
    intDigits memory position +
      (digitsAt memory (intDigits memory position)).length <
        memory.length := by
  apply terminated.digits_lt
  have inside := terminated.next_lt opens (by decide)
  unfold intDigits
  split
  · rename_i minus
    exact terminated.next_lt minus (by decide)
  · exact inside

end Scalars

section Integers

variable {memory : List UInt8} {position : Nat}

/-- What the digits of an integer amount to, with their sign. -/
def intValueAt (memory : List UInt8) (position : Nat) : Int :=
  toInt64 (digitsInt64 (digitsAt memory (intDigits memory position)) *
    if memory[position + 1]? = some (ch '-') then -1 else 1)

theorem readStringInt_eq
    (runInside : intDigits memory position +
      (digitsAt memory (intDigits memory position)).length <
        memory.length) :
    readStringInt memory (position + 1) =
      .ok (if digitsAt memory (intDigits memory position) = [] then none
        else some
          (intDigits memory position +
            (digitsAt memory (intDigits memory position)).length,
            intValueAt memory position)) := by
  have before := lt_intDigits memory position
  obtain ⟨first, held, peeked⟩ :=
    peek_of_lt (by omega : position + 1 < memory.length)
  obtain ⟨lead, leadHeld, leadPeeked⟩ :=
    peek_of_lt (by omega : intDigits memory position < memory.length)
  obtain ⟨stopper, stops, _⟩ := peek_of_lt runInside
  have place : intDigits memory position =
      if first = ch '-' then position + 1 + 1 else position + 1 := by
    simp [intDigits, held]
  have ran := digitRun_of_stop stops
  have empty := digitsAt_eq_nil_iff leadHeld
  simp only [readStringInt, peeked, ok_bind, ← place, leadPeeked, ran,
    empty, intValueAt, held, Option.some.injEq]
  by_cases digit : isDigit lead = true
  · simp [digit]
  · simp [digit]

end Integers

/-! ## Opening a reader and telling its kind -/

section Kinds

variable {memory : List UInt8}

theorem carryLength_readerAt {start position value : Nat} {last : Int}
    (range : InRange start last position) (room : start < last)
    (forward : position ≤ value) (small : value < 2 ^ 31) :
    carryLength (readerAt start last position) (some value) =
      .ok (last + (position - start) - value) := by
  have order := range.order
  have window := range.window
  have positive : 0 < (readerAt start last position).len := by
    change 0 < last - start
    omega
  rw [carryLength, if_pos positive]
  simp only [readerAt, offset]
  rw [toInt32_of_range (by omega) (by omega)]
  congr 1
  omega

theorem carryLength_of_le {start position : Nat} {last : Int}
    (closed : last ≤ start) (value : Option Nat) :
    carryLength (readerAt start last position) value =
      .error .abort := by
  have negative : ¬ 0 < (readerAt start last position).len := by
    change ¬ 0 < last - start
    omega
  rw [carryLength, if_neg negative]

theorem bencodeInit_eq (value : Nat) (last : Int) :
    bencodeInit (some value) (last - value) = readerAt value last value :=
  rfl

theorem startsWith_eq {start position : Nat} {last : Int}
    (inside : position < memory.length) (mark : Char) :
    startsWith memory (readerAt start last position) mark =
      .ok (decide (memory[position]? = some (ch mark))) := by
  obtain ⟨byte, held, peeked⟩ := peek_of_lt inside
  simp [startsWith, readerAt, peeked, held]

theorem bencodeIsString_eq {start position : Nat} {last : Int}
    (runInside :
      position + (digitsAt memory position).length < memory.length) :
    bencodeIsString memory (readerAt start last position) =
      .ok (decide (TextOpens memory position)) := by
  obtain ⟨lead, held, peeked⟩ :=
    peek_of_lt (by omega : position < memory.length)
  obtain ⟨stopper, stops, _⟩ := peek_of_lt runInside
  have ran := digitRun_of_stop stops
  have empty := digitsAt_eq_nil_iff held
  simp only [bencodeIsString, readerAt, peeked, ok_bind, ran, TextOpens,
    stops, Ne, empty]
  by_cases digit : isDigit lead = true
  · simp [digit]
  · simp [digit]

theorem bencodeIsString_of_opens {start position : Nat} {last : Int}
    (opens : TextOpens memory position) :
    bencodeIsString memory (readerAt start last position) = .ok true := by
  obtain ⟨lead, held, digit⟩ := digit_of_digitsAt opens.1
  simp only [bencodeIsString, readerAt, peek_of_byte held, ok_bind, digit,
    if_true, digitRun_of_stop opens.2]
  rfl

theorem bencodeStringValue_eq
    {position body count : Nat} {last : Int}
    (length : LengthAt memory position body count)
    (room : position < last) :
    bencodeStringValue memory (readerAt position last position) =
      .ok (if (body + count : Int) ≤ last then some body else none,
        (count : Int)) := by
  have opens : TextOpens memory position := ⟨length.digits, length.colon⟩
  have positive : 0 < (readerAt position last position).len := by
    change 0 < last - position
    omega
  have window : offset (readerAt position last position).start +
      (readerAt position last position).len = last := by
    change (position : Int) + (last - position) = last
    omega
  rw [bencodeStringValue, bencodeIsString_of_opens opens, ok_bind, if_pos rfl]
  change (readStringLen memory (some position) >>= _) = _
  rw [readStringLen_of_lengthAt length, ok_bind]
  change (if 0 < (readerAt position last position).len then _ else _) = _
  rw [if_pos positive, window]
  by_cases fits : (body + count : Int) ≤ last
  · rw [if_neg (Int.not_lt.mpr fits), if_pos fits]
    rfl
  · rw [if_pos (Int.not_le.mp fits), if_neg fits]
    rfl

/-- A string value is read only at a length, in a window that is not
empty. -/
theorem lengthAt_of_bencodeStringValue (terminated : Terminated memory)
    {position : Nat} {last : Int} {read : Option Nat × Int}
    (inside : position < memory.length)
    (ran : bencodeStringValue memory (readerAt position last position) =
      .ok read) :
    ∃ body count, LengthAt memory position body count ∧
      position < last := by
  rw [bencodeStringValue, bencodeIsString_eq (terminated.digits_lt inside),
    ok_bind]
    at ran
  by_cases opens : TextOpens memory position
  · rw [if_pos (decide_eq_true opens), bind_eq_ok_iff] at ran
    obtain ⟨found, length, rest⟩ := ran
    change readStringLen memory (some position) = .ok found at length
    rcases found with _ | ⟨body, size⟩
    · cases rest
    · obtain ⟨count, _, shape⟩ :=
        lengthAt_of_readStringLen terminated inside length
      refine ⟨body, count, shape, ?_⟩
      by_contra closed
      have negative : ¬ 0 < (readerAt position last position).len := by
        change ¬ 0 < last - position
        omega
      change (if 0 < (readerAt position last position).len then _ else _) =
        Except.ok read at rest
      rw [if_neg negative] at rest
      cases rest
  · rw [if_neg (by simpa using opens)] at ran
    cases ran

theorem pastInt_eq {start position : Nat} {last : Int}
    (runInside : intDigits memory position +
      (digitsAt memory (intDigits memory position)).length <
        memory.length) :
    pastInt memory (readerAt start last position) =
      if digitsAt memory (intDigits memory position) = [] then
        .ok none
      else if
          memory[intDigits memory position +
            (digitsAt memory (intDigits memory position)).length]? =
              some (ch 'e') then
        .ok (some (intDigits memory position +
          (digitsAt memory (intDigits memory position)).length + 1))
      else
        .error .abort := by
  simp only [pastInt, readerAt, readStringInt_eq runInside, ok_bind]
  by_cases empty : digitsAt memory (intDigits memory position) = []
  · simp [empty]
  · obtain ⟨closing, held, peeked⟩ := peek_of_lt runInside
    simp [empty, peeked, held]

end Kinds

/-! ## One step of a dictionary and of a list -/

section Steps

variable {memory : List UInt8}

theorem dictEnds_of_le {last : Int} {position : Nat}
    (closed : last ≤ position + 1) : DictEnds memory last position :=
  .inr (.inr (.inr (.inr closed)))

theorem keyPosition_of_lead {position : Nat}
    (opens : memory[position]? = some (ch 'd')) :
    keyPosition memory position = position + 1 :=
  if_pos opens

theorem Terminated.key_lt (terminated : Terminated memory) {position : Nat}
    (inside : position < memory.length) :
    keyPosition memory position < memory.length := by
  by_cases opens : memory[position]? = some (ch 'd')
  · rw [keyPosition_of_lead opens]
    exact terminated.next_lt opens (by decide)
  · rw [keyPosition, if_neg opens]
    exact inside

theorem bencodeDictHasNext_eq {start position : Nat} {last : Int}
    (keyInside : keyPosition memory position < memory.length) :
    bencodeDictHasNext memory (readerAt start last position) =
      .ok (decide (¬ DictEnds memory last position)) := by
  obtain ⟨first, held, peeked⟩ :=
    peek_of_lt (Nat.lt_of_le_of_lt (le_keyPosition _ _) keyInside)
  have window : offset (readerAt start last position).start +
      (readerAt start last position).len - 1 = last - 1 := by
    change (start : Int) + (last - start) - 1 = last - 1
    omega
  change (peek memory position >>= _) = _
  rw [peeked, ok_bind, window]
  simp only [DictEnds, held, Option.some.injEq]
  by_cases stops : first = ch 'e' ∨ first = 0 ∨ first = ch '\r'
  · rw [if_pos stops]
    rcases stops with stops | stops | stops <;> simp [stops]
  · rw [if_neg stops]
    simp only [not_or] at stops
    by_cases opens : first = ch 'd'
    · rw [keyPosition_of_lead (opens ▸ held)] at keyInside
      obtain ⟨second, nextHeld, nextPeeked⟩ := peek_of_lt keyInside
      simp only [opens, if_true, nextPeeked, ok_bind, nextHeld, true_and,
        Option.some.injEq]
      by_cases empty : second = ch 'e'
      · simp [empty]
      · have marks : ch 'd' ≠ ch 'e' ∧ ch 'd' ≠ 0 ∧ ch 'd' ≠ ch '\r' := by
          decide
        simp only [empty, marks, if_false, false_or, pure_exec]
        congr 2
        rw [eq_iff_iff]
        omega
    · simp only [opens, stops, if_false, false_and, false_or, pure_exec,
        ok_bind]
      congr 2
      rw [eq_iff_iff]
      omega

/-- A loop over a dictionary asks for the next entry in this way. -/
theorem bencodeDictHasNext_bind {α : Type} {start position : Nat}
    {last : Int} (keyInside : keyPosition memory position < memory.length)
    (next : Bool → Exec α) :
    (bencodeDictHasNext memory (readerAt start last position) >>= next) =
      if DictEnds memory last position then next false else next true := by
  rw [bencodeDictHasNext_eq keyInside, ok_bind]
  by_cases ends : DictEnds memory last position
  · rw [if_pos ends, decide_eq_false (not_not.mpr ends)]
  · rw [if_neg ends, decide_eq_true ends]

theorem pastDict_eq {start position : Nat} {last : Int}
    (keyInside : keyPosition memory position < memory.length) :
    pastDict memory (readerAt start last position) =
      .ok (some (afterDict memory position)) := by
  obtain ⟨first, held, peeked⟩ :=
    peek_of_lt (Nat.lt_of_le_of_lt (le_keyPosition _ _) keyInside)
  change (peek memory position >>= _) = _
  rw [peeked, ok_bind]
  simp only [afterDict, held, Option.some.injEq]
  by_cases opens : first = ch 'd'
  · rw [keyPosition_of_lead (opens ▸ held)] at keyInside
    obtain ⟨second, nextHeld, nextPeeked⟩ := peek_of_lt keyInside
    simp only [opens, if_true, readerAt, Option.map_some, deref_some,
      nextPeeked, ok_bind, nextHeld, true_and, Option.some.injEq]
    by_cases empty : second = ch 'e' <;> simp [empty]
  · simp [opens, readerAt]

/-- The step of a dictionary onto a key. -/
theorem bencodeDictGetNext_step (iterate : Iterate) (start : Nat)
    {position : Nat} (last : Int) {head : UInt8}
    (inside : position < memory.length)
    (held : memory[keyPosition memory position]? = some head)
    (notEnd : head ≠ ch 'e') :
    bencodeDictGetNext memory iterate (readerAt start last position) =
      (readStringLen memory (some (keyPosition memory position)) >>=
        dictItem iterate (readerAt start last position)) := by
  obtain ⟨first, firstHeld, firstPeeked⟩ := peek_of_lt inside
  have firstNotEnd : first ≠ ch 'e' := by
    intro isEnd
    have place : keyPosition memory position = position := by
      rw [keyPosition, firstHeld, isEnd]
      rfl
    rw [place, firstHeld] at held
    exact notEnd ((Option.some.inj held).symm.trans isEnd)
  have cursor : (if first = ch 'd' then
      (readerAt start last position).str.map (· + 1)
      else (readerAt start last position).str) =
        some (keyPosition memory position) := by
    simp only [keyPosition, firstHeld, Option.some.injEq, readerAt]
    split <;> rfl
  change (peek memory position >>= _) = _
  rw [firstPeeked, ok_bind, if_neg firstNotEnd, cursor]
  change (peek memory (keyPosition memory position) >>= _) = _
  rw [peek_of_byte held, ok_bind, if_neg notEnd]

/-- Where the walk goes on, the byte at the key is no `e`. -/
theorem bencodeDictGetNext_eq (terminated : Terminated memory)
    (iterate : Iterate) (start : Nat) {position : Nat} {last : Int}
    (inside : position < memory.length)
    (more : ¬ DictEnds memory last position) :
    keyPosition memory position < memory.length ∧
      bencodeDictGetNext memory iterate (readerAt start last position) =
        (readStringLen memory (some (keyPosition memory position)) >>=
          dictItem iterate (readerAt start last position)) := by
  obtain ⟨first, held, _⟩ := peek_of_lt inside
  have keyInside := terminated.key_lt inside
  obtain ⟨head, headHeld, _⟩ := peek_of_lt keyInside
  have headNotEnd : head ≠ ch 'e' := by
    rintro rfl
    by_cases opens : first = ch 'd'
    · simp only [keyPosition, held, opens, if_true] at headHeld
      exact more (.inr (.inr (.inr (.inl ⟨opens ▸ held, headHeld⟩))))
    · simp only [keyPosition, held, Option.some.injEq, opens, if_false]
        at headHeld
      exact more (.inl (held.trans (congrArg some headHeld)))
  exact ⟨keyInside,
    bencodeDictGetNext_step iterate start last inside headHeld headNotEnd⟩

theorem bencodeDictGetNext_of_lengthAt (small : memory.length ≤ 2 ^ 31)
    (iterate : Iterate) {start position body count : Nat} {last : Int}
    (range : InRange start last position) (room : (start : Int) < last)
    (length :
      LengthAt memory (keyPosition memory position) body count)
    (inside : body + count < memory.length) :
    bencodeDictGetNext memory iterate (readerAt start last position) =
      (iterate (readerAt start last position) (some (body + count)) >>=
        fun found => .ok (found.map (fun next =>
          ⟨readerAt start last next,
            readerAt (body + count) (last + (position - start))
              (body + count),
            some body, count⟩))) := by
  have before := le_keyPosition memory position
  have behind := length.position_lt_body
  have carry := carryLength_readerAt range room
    (by omega : position ≤ body + count) (by omega : body + count < 2 ^ 31)
  obtain ⟨head, held, digit⟩ := digit_of_digitsAt length.digits
  have notEnd : head ≠ ch 'e' := by
    rintro rfl
    exact absurd digit (by decide)
  have target : ((body : Int) + count).toNat = body + count := by omega
  rw [bencodeDictGetNext_step iterate start last (by omega) held notEnd,
    readStringLen_of_lengthAt length]
  simp only [dictItem, ok_bind, Option.map_some, Option.getD_some, target,
    carry, bencodeInit_eq]
  congr 1
  funext found
  cases found <;> rfl

theorem bencodeDictGetNext_of_keyAt (small : memory.length ≤ 2 ^ 31)
    (iterate : Iterate) {start position value : Nat} {last : Int}
    (range : InRange start last position)
    (more : ¬ DictEnds memory last position)
    (key : KeyAt memory position value) :
    ∃ body count,
      LengthAt memory (keyPosition memory position) body count ∧
        value = body + count ∧
        bencodeDictGetNext memory iterate (readerAt start last position) =
          (iterate (readerAt start last position) (some value) >>=
            fun found => .ok (found.map (fun next =>
              ⟨readerAt start last next,
                readerAt value (last + (position - start)) value,
                some body, count⟩))) := by
  obtain ⟨body, count, length, rfl⟩ := key.key
  have order := range.order
  have room : (start : Int) < last := by
    by_contra closed
    exact more (dictEnds_of_le (by omega))
  exact ⟨body, count, length, rfl,
    bencodeDictGetNext_of_lengthAt small iterate range room length
      key.inside⟩

/-- A skip that answers was asked for a place inside the block. -/
def StaysInside (memory : List UInt8) (iterate : Iterate) : Prop :=
  ∀ be sp result, iterate be sp = .ok result →
    ∃ position, sp = some position ∧ position < memory.length

theorem keyAt_of_bencodeDictGetNext (terminated : Terminated memory)
    {iterate : Iterate} (stays : StaysInside memory iterate)
    {start position : Nat} {last : Int} {next : Option DictItem}
    (inside : position < memory.length)
    (more : ¬ DictEnds memory last position)
    (ran : bencodeDictGetNext memory iterate (readerAt start last position) =
      .ok next) :
    ∃ value, KeyAt memory position value := by
  obtain ⟨keyInside, step⟩ :=
    bencodeDictGetNext_eq terminated iterate start inside more
  rw [step, bind_eq_ok_iff] at ran
  obtain ⟨read, length, opened⟩ := ran
  simp only [dictItem, bind_eq_ok_iff] at opened
  obtain ⟨_, _, found, skipped, _⟩ := opened
  obtain ⟨value, target, valueInside⟩ := stays _ _ _ skipped
  rcases read with _ | ⟨body, size⟩
  · cases target
  · obtain ⟨count, rfl, shape⟩ :=
      lengthAt_of_readStringLen terminated keyInside length
    simp only [Option.map_some, Option.getD_some, Option.some.injEq]
      at target
    exact ⟨value, valueInside, body, count, shape, by omega⟩

theorem itemPosition_of_lead {start position : Nat}
    (opens : memory[position]? = some (ch 'l') ∧ position = start) :
    itemPosition memory start position = position + 1 :=
  if_pos opens

theorem Terminated.item_lt (terminated : Terminated memory)
    {start position : Nat} (inside : position < memory.length) :
    itemPosition memory start position < memory.length := by
  by_cases opens : memory[position]? = some (ch 'l') ∧ position = start
  · rw [itemPosition_of_lead opens]
    exact terminated.next_lt opens.1 (by decide)
  · rw [itemPosition, if_neg opens]
    exact inside

theorem bencodeListHasNext_eq {start position : Nat} {last : Int}
    (itemInside : itemPosition memory start position < memory.length) :
    bencodeListHasNext memory (readerAt start last position) =
      if memory[position]? = some (ch 'l') ∧ position = start ∧
          memory[position + 1]? = some (ch 'e') then
        .ok (false, readerAt start last (position + 1))
      else
        .ok (decide (memory[position]? ≠ some (ch 'e')),
          readerAt start last position) := by
  obtain ⟨first, held, peeked⟩ :=
    peek_of_lt (Nat.lt_of_le_of_lt (le_itemPosition _ _ _) itemInside)
  change (peek memory position >>= _) = _
  rw [peeked, ok_bind]
  simp only [readerAt, held, Option.some.injEq]
  by_cases opens : first = ch 'l' ∧ position = start
  · obtain ⟨rfl, rfl⟩ := opens
    rw [itemPosition_of_lead ⟨held, rfl⟩] at itemInside
    obtain ⟨second, nextHeld, nextPeeked⟩ := peek_of_lt itemInside
    simp only [and_self, if_true, nextPeeked, ok_bind, nextHeld, true_and,
      Option.some.injEq]
    by_cases empty : second = ch 'e' <;> simp [empty]
  · simp only [opens, if_false, pure_exec, ok_bind]
    rw [if_neg (by tauto), if_neg (by tauto)]
    simp

theorem bencodeListHasNext_bind {α : Type} {start position : Nat}
    {last : Int}
    (itemInside : itemPosition memory start position < memory.length)
    (next : Bool × Bencode → Exec α) :
    (bencodeListHasNext memory (readerAt start last position) >>= next) =
      if memory[position]? = some (ch 'l') ∧ position = start ∧
          memory[position + 1]? = some (ch 'e') then
        next (false, readerAt start last (position + 1))
      else if memory[position]? = some (ch 'e') then
        next (false, readerAt start last position)
      else
        next (true, readerAt start last position) := by
  rw [bencodeListHasNext_eq itemInside]
  split
  · rfl
  · by_cases closes : memory[position]? = some (ch 'e')
    · rw [if_pos closes, decide_eq_false (not_not.mpr closes), ok_bind]
    · rw [if_neg closes, decide_eq_true closes, ok_bind]

/-- What `bencodeListHasNext` has established before an element is taken. -/
structure ItemOpens (memory : List UInt8) (start position : Nat) :
    Prop where
  more : memory[position]? ≠ some (ch 'e')
  element : memory[itemPosition memory start position]? ≠ some (ch 'e')
  inside : itemPosition memory start position < memory.length

theorem itemOpens_of_more (terminated : Terminated memory)
    {start position : Nat} (inside : position < memory.length)
    (more : memory[position]? ≠ some (ch 'e'))
    (nonempty : ¬ (memory[position]? = some (ch 'l') ∧ position = start ∧
      memory[position + 1]? = some (ch 'e'))) :
    ItemOpens memory start position := by
  refine ⟨more, ?_, terminated.item_lt inside⟩
  by_cases opens : memory[position]? = some (ch 'l') ∧ position = start
  · rw [itemPosition_of_lead opens]
    exact fun empty => nonempty ⟨opens.1, opens.2, empty⟩
  · rw [itemPosition, if_neg opens]
    exact more

/-- What a list hands out, by the answer of the skip. -/
def itemStep (start : Nat) (last : Int) (item : Bencode) :
    Option Nat → ListNext
  | none => .failed ⟨none, some start, last - start⟩ item
  | some next => .found (readerAt start last next) item

/-- The step over an element: its window is carried over and the element is
skipped. -/
theorem bencodeListGetNext_eq (iterate : Iterate)
    {start position : Nat} {last : Int}
    (opens : ItemOpens memory start position) :
    bencodeListGetNext memory iterate (readerAt start last position) =
      (carryLength (readerAt start last position)
          (some (itemPosition memory start position)) >>= fun len =>
        iterate (readerAt start last position)
            (some (itemPosition memory start position)) >>= fun found =>
          .ok (itemStep start last
            (bencodeInit (some (itemPosition memory start position)) len)
            found)) := by
  have order := le_itemPosition memory start position
  obtain ⟨first, held, peeked⟩ :=
    peek_of_lt (Nat.lt_of_le_of_lt order opens.inside)
  obtain ⟨head, headHeld, headPeeked⟩ := peek_of_lt opens.inside
  have notEnd : first ≠ ch 'e' := by
    rintro rfl
    exact opens.more held
  have headNotEnd : head ≠ ch 'e' := by
    rintro rfl
    exact opens.element headHeld
  have cursor : (if first = ch 'l' ∧
      (readerAt start last position).start =
        (readerAt start last position).str then position + 1
      else position) = itemPosition memory start position := by
    simp only [itemPosition, held, Option.some.injEq, readerAt]
    congr 1
    simp [eq_comm]
  change (peek memory position >>= _) = _
  rw [peeked, ok_bind, if_neg notEnd]
  simp only [cursor, headPeeked, ok_bind, if_neg headNotEnd]
  congr 1
  funext len
  congr 1
  funext found
  cases found <;> rfl

end Steps

end UvgTorrent
