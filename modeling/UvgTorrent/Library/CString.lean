import UvgTorrent.Library.Program
import Mathlib.Data.List.TakeWhile

/-!
# C strings and searches in memory

A memory block is a list of bytes.  Reading beyond its end stops the run.
A `CString` carries the proof that its terminator is not among its bytes, so
two keys are equal exactly when `strcmp` returns zero.
-/

namespace CText

open CProgram

/-- The byte of an ASCII character. -/
def ch (character : Char) : UInt8 :=
  UInt8.ofNat character.toNat

/-- The bytes of an ASCII literal, without the terminator. -/
def text (literal : String) : List UInt8 :=
  literal.toList.map ch

/-- The bytes before a terminator. -/
structure CString where
  bytes : List UInt8
  noNul : 0 ∉ bytes
  deriving DecidableEq

namespace CString

@[ext]
theorem ext {left right : CString} (same : left.bytes = right.bytes) :
    left = right := by
  cases left
  cases right
  cases same
  rfl

/-- The string found in a block that holds a terminator, or all of it. -/
def ofBytes (block : List UInt8) : CString where
  bytes := block.takeWhile (· != 0)
  noNul := by
    intro member
    have passed := List.all_eq_true.mp
      (List.all_takeWhile (l := block) (p := (· != 0))) 0 member
    simp at passed

def strlen (string : CString) : Nat :=
  string.bytes.length

theorem ofBytes_bytes_append {bytes : List UInt8} (noNul : 0 ∉ bytes)
    (rest : List UInt8) :
    (ofBytes (bytes ++ 0 :: rest)).bytes = bytes := by
  have passes : ∀ byte ∈ bytes, (byte != 0) = true := by
    intro byte member
    have different : byte ≠ 0 := fun zero => noNul (zero ▸ member)
    simpa using different
  simp only [ofBytes]
  rw [List.takeWhile_append_of_pos passes]
  simp

theorem ofBytes_append_bytes (string : CString) (rest : List UInt8) :
    ofBytes (string.bytes ++ 0 :: rest) = string :=
  ext (ofBytes_bytes_append string.noNul rest)

/-- A terminator ends the string, wherever the block ends. -/
theorem ofBytes_append_nul (bytes rest : List UInt8) :
    ofBytes (bytes ++ 0 :: rest) = ofBytes bytes := by
  apply ext
  simp only [ofBytes]
  induction bytes with
  | nil =>
      rfl
  | cons byte bytes inductionHypothesis =>
      by_cases isNul : byte = 0
      · rw [isNul]
        rfl
      · have passes : (byte != 0) = true := by simpa using isNul
        rw [List.cons_append,
          List.takeWhile_cons_of_pos (p := (· != 0)) passes,
          List.takeWhile_cons_of_pos (p := (· != 0)) passes,
          inductionHypothesis]

theorem ofBytes_noNul {bytes : List UInt8} (noNul : 0 ∉ bytes) :
    ofBytes bytes = ⟨bytes, noNul⟩ := by
  apply ext
  refine List.takeWhile_eq_self_iff.mpr fun byte member => ?_
  have different : byte ≠ 0 := fun zero => noNul (zero ▸ member)
  simpa using different

theorem ofBytes_length_le (block : List UInt8) :
    (ofBytes block).bytes.length ≤ block.length :=
  List.Sublist.length_le (List.takeWhile_sublist _)

end CString

/-! ## Reading memory -/

/-- Read one byte of a block. -/
def peek (memory : List UInt8) (position : Nat) : Exec UInt8 :=
  match memory[position]? with
  | some byte => .ok byte
  | none => .error .readPast

def deref (memory : List UInt8) : Option Nat → Exec UInt8
  | none => .error .nullPointer
  | some position => peek memory position

/-- Copy `count` bytes out of a block. -/
def slice (memory : List UInt8) (position count : Nat) :
    Exec (List UInt8) :=
  if position + count ≤ memory.length then
    .ok ((memory.drop position).take count)
  else
    .error .readPast

/-- `slice` at an `int` position, which may lie in front of the block. -/
def sliceAt (memory : List UInt8) (position : Int) (count : Nat) :
    Exec (List UInt8) :=
  if 0 ≤ position then
    slice memory position.toNat count
  else
    .error .readPast

/-- Read the string at the start of a block, which must hold its
terminator. -/
def readString (memory : List UInt8) : Exec CString :=
  if 0 ∈ memory then
    .ok (CString.ofBytes memory)
  else
    .error .readPast

theorem readString_stored (string : CString) (rest : List UInt8) :
    readString (string.bytes ++ 0 :: rest) = .ok string := by
  rw [readString, if_pos (List.mem_append_right _ List.mem_cons_self),
    CString.ofBytes_append_bytes]

@[simp]
theorem peek_eq_ok_iff (memory : List UInt8) (position : Nat)
    (byte : UInt8) :
    peek memory position = .ok byte ↔ memory[position]? = some byte := by
  unfold peek
  cases memory[position]? <;> simp

@[simp]
theorem deref_some (memory : List UInt8) (position : Nat) :
    deref memory (some position) = peek memory position :=
  rfl

theorem slice_of_le {memory : List UInt8} {position count : Nat}
    (inside : position + count ≤ memory.length) :
    slice memory position count =
      .ok ((memory.drop position).take count) :=
  if_pos inside

theorem slice_of_lt {memory : List UInt8} {position count : Nat}
    (outside : memory.length < position + count) :
    slice memory position count = .error .readPast :=
  if_neg (Nat.not_le.mpr outside)

/-! ## Character classes and searches -/

/-- What holds of each of the 256 bytes. -/
theorem forall_byte {holds : UInt8 → Prop}
    (each : ∀ value : Fin 256, holds (UInt8.ofNat value)) (byte : UInt8) :
    holds byte := by
  have reached := each ⟨byte.toNat, byte.toNat_lt⟩
  rw [UInt8.ofNat_toNat] at reached
  exact reached

def isDigit (byte : UInt8) : Bool :=
  ch '0' ≤ byte && byte ≤ ch '9'

def digitValue (byte : UInt8) : Int :=
  (byte.toNat : Int) - (ch '0').toNat

/-- Search a terminated string for a needle without a terminator.  The
answer is the offset of the first occurrence. -/
def strstr (needle : List UInt8) : List UInt8 → Exec (Option Nat)
  | [] => .error .readPast
  | byte :: rest =>
      if needle.isPrefixOf (byte :: rest) then
        .ok (some 0)
      else if byte = 0 then
        .ok none
      else
        match strstr needle rest with
        | .ok found => .ok (found.map (· + 1))
        | .error stop => .error stop

theorem prefix_before_nul {needle bytes rest : List UInt8}
    (noNul : 0 ∉ needle) (isPrefix : needle <+: bytes ++ 0 :: rest) :
    needle <+: bytes := by
  rcases List.prefix_or_prefix_of_prefix isPrefix
    (List.prefix_append bytes (0 :: rest)) with inside | ⟨tail, rfl⟩
  · exact inside
  · have tailPrefix : tail <+: 0 :: rest :=
      (List.prefix_append_right_inj bytes).mp isPrefix
    cases tail with
    | nil =>
        exact ⟨[], by rw [List.append_nil, List.append_nil]⟩
    | cons byte tail =>
        have isNul : byte = 0 := (List.cons_prefix_cons.mp tailPrefix).1
        exact absurd (isNul ▸ List.mem_append_right bytes
          List.mem_cons_self) noNul

/-- In a terminated block the search answers: with a place of the needle,
or that the string does not hold it. -/
theorem strstr_answers {needle : List UInt8} (noNul : 0 ∉ needle)
    (nonempty : needle ≠ []) {bytes : List UInt8} (terminated : 0 ∉ bytes)
    (rest : List UInt8) :
    (∃ before after, bytes = before ++ needle ++ after ∧
      strstr needle (bytes ++ 0 :: rest) = .ok (some before.length)) ∨
    (¬ needle <:+: bytes ∧
      strstr needle (bytes ++ 0 :: rest) = .ok none) := by
  induction bytes with
  | nil =>
      have noPrefix : ¬ needle <+: 0 :: rest := fun isPrefix =>
        nonempty (List.prefix_nil.mp (prefix_before_nul noNul isPrefix))
      refine .inr ⟨fun inside => nonempty (List.infix_nil.mp inside), ?_⟩
      simp [strstr, noPrefix]
  | cons byte bytes inductionHypothesis =>
      have notNul : byte ≠ 0 := fun isNul =>
        terminated (isNul ▸ List.mem_cons_self)
      by_cases isPrefix : needle <+: (byte :: bytes) ++ 0 :: rest
      · obtain ⟨after, split⟩ := prefix_before_nul noNul isPrefix
        refine .inl ⟨[], after, split.symm, ?_⟩
        rw [List.cons_append] at isPrefix ⊢
        rw [strstr, if_pos (by simpa using isPrefix)]
        rfl
      · have step : strstr needle (byte :: bytes ++ 0 :: rest) =
            match strstr needle (bytes ++ 0 :: rest) with
            | .ok found => .ok (found.map (· + 1))
            | .error stop => .error stop := by
          rw [List.cons_append] at isPrefix ⊢
          rw [strstr, if_neg (by simpa using isPrefix), if_neg notNul]
        rcases inductionHypothesis (fun member =>
          terminated (List.mem_cons_of_mem _ member)) with
          ⟨before, after, split, found⟩ | ⟨absent, missing⟩
        · refine .inl ⟨byte :: before, after, by simp [split], ?_⟩
          rw [step, found]
          rfl
        · refine .inr ⟨fun inside => ?_, ?_⟩
          · rcases List.infix_cons_iff.mp inside with atFront | further
            · exact isPrefix
                (atFront.trans (List.prefix_append _ (0 :: rest)))
            · exact absent further
          · rw [step, missing]
            rfl

/-- A needle at the start of two joined blocks lies in the first one, or
goes on into the second. -/
theorem prefix_append_cases {needle block rest : List UInt8}
    (isPrefix : needle <+: block ++ rest) :
    needle <+: block ∨
      ∃ tail, tail ≠ [] ∧ needle = block ++ tail ∧ tail <+: rest := by
  rcases List.prefix_or_prefix_of_prefix isPrefix
    (List.prefix_append block rest) with inside | ⟨tail, rfl⟩
  · exact .inl inside
  · have further := (List.prefix_append_right_inj block).mp isPrefix
    by_cases empty : tail = []
    · rw [empty, List.append_nil]
      exact .inl (List.prefix_refl block)
    · exact .inr ⟨tail, empty, rfl, further⟩

theorem strstr_cons {needle rest : List UInt8} {byte : UInt8}
    (notHere : ¬ needle <+: byte :: rest) (notNul : byte ≠ 0) :
    strstr needle (byte :: rest) =
      (strstr needle rest).map (Option.map (· + 1)) := by
  rw [strstr, if_neg (by simpa using notHere), if_neg notNul]
  cases strstr needle rest with
  | ok found => rfl
  | error stop => rfl

theorem strstr_here {needle rest : List UInt8} {byte : UInt8}
    (here : needle <+: byte :: rest) :
    strstr needle (byte :: rest) = .ok (some 0) := by
  rw [strstr, if_pos (by simpa using here)]

/-- A search that answers has met a `NUL` or room for the needle. -/
theorem strstr_ok_room {needle block : List UInt8} {found : Option Nat}
    (answered : strstr needle block = .ok found) :
    0 ∈ block ∨ needle.length ≤ block.length := by
  induction block generalizing found with
  | nil =>
      cases answered
  | cons byte rest inductionHypothesis =>
      by_cases here : needle <+: byte :: rest
      · exact .inr here.length_le
      · by_cases isNul : byte = 0
        · exact .inl (isNul ▸ List.mem_cons_self)
        · rw [strstr_cons here isNul] at answered
          cases inner : strstr needle rest with
          | ok further =>
              rcases inductionHypothesis inner with nul | room
              · exact .inl (List.mem_cons_of_mem byte nul)
              · exact .inr (Nat.le_succ_of_le room)
          | error stop =>
              rw [inner] at answered
              cases answered

/-- The answer of a search does not depend on what follows. -/
theorem strstr_append {needle block : List UInt8} {found : Option Nat}
    (noNul : 0 ∉ needle) (answered : strstr needle block = .ok found)
    (rest : List UInt8) :
    strstr needle (block ++ rest) = .ok found := by
  induction block generalizing found with
  | nil =>
      cases answered
  | cons byte block inductionHypothesis =>
      by_cases here : needle <+: byte :: block
      · have longer : needle <+: byte :: (block ++ rest) :=
          here.trans (List.prefix_append (byte :: block) rest)
        rw [strstr_here here] at answered
        rw [List.cons_append, strstr_here longer, answered]
      · have room := strstr_ok_room answered
        have notHere : ¬ needle <+: byte :: (block ++ rest) := by
          intro longer
          rw [← List.cons_append] at longer
          rcases prefix_append_cases longer with inside | ⟨tail, some, rfl, _⟩
          · exact here inside
          · rcases room with nul | room
            · exact noNul (List.mem_append_left tail nul)
            · have positive := List.length_pos_iff.mpr some
              rw [List.length_append] at room
              omega
        by_cases isNul : byte = 0
        · rw [strstr, if_neg (by simpa using here), if_pos isNul] at answered
          rw [List.cons_append, strstr, if_neg (by simpa using notHere),
            if_pos isNul, answered]
        · rw [strstr_cons here isNul] at answered
          rw [List.cons_append, strstr_cons notHere isNul]
          cases inner : strstr needle block with
          | ok further =>
              rw [inner] at answered
              rw [inductionHypothesis inner]
              exact answered
          | error stop =>
              rw [inner] at answered
              cases answered

/-- A search that reads past its block also reads past one that is filled up
with a byte that is neither `NUL` nor in the needle. -/
theorem strstr_fill {needle block : List UInt8} {stop : Stop}
    {filler : UInt8} (stopped : strstr needle block = .error stop)
    (nonempty : needle ≠ []) (foreign : filler ∉ needle)
    (notNul : filler ≠ 0) (count : Nat) :
    ∃ reason, strstr needle (block ++ List.replicate count filler) =
      .error reason := by
  have notHere : ∀ {front : List UInt8} (many : Nat),
      ¬ needle <+: front →
        ¬ needle <+: front ++ List.replicate many filler := by
    intro front many absent longer
    rcases prefix_append_cases longer with inside | ⟨tail, some, rfl, among⟩
    · exact absent inside
    · rcases List.exists_mem_of_ne_nil tail some with ⟨byte, member⟩
      have isFiller := List.eq_of_mem_replicate (among.subset member)
      exact foreign (isFiller ▸ List.mem_append_right front member)
  induction block generalizing stop with
  | nil =>
      rw [List.nil_append]
      induction count with
      | zero =>
          exact ⟨.readPast, rfl⟩
      | succ count inductionHypothesis =>
          rcases inductionHypothesis with ⟨reason, further⟩
          have absent := @notHere [] (count + 1)
            fun inside => nonempty (List.prefix_nil.mp inside)
          rw [List.nil_append, List.replicate_succ] at absent
          rw [List.replicate_succ, strstr_cons absent notNul, further]
          exact ⟨reason, rfl⟩
  | cons byte block inductionHypothesis =>
      by_cases here : needle <+: byte :: block
      · rw [strstr_here here] at stopped
        cases stopped
      · by_cases isNul : byte = 0
        · rw [strstr, if_neg (by simpa using here), if_pos isNul] at stopped
          cases stopped
        · rw [strstr_cons here isNul] at stopped
          cases inner : strstr needle block with
          | ok further =>
              rw [inner] at stopped
              cases stopped
          | error reason =>
              rcases inductionHypothesis inner with ⟨reason, further⟩
              have absent : ¬ needle <+:
                  byte :: (block ++ List.replicate count filler) :=
                notHere count here
              rw [List.cons_append, strstr_cons absent isNul, further]
              exact ⟨reason, rfl⟩

/-! ## Decimal text -/

/-- The decimal digits of a number. -/
def decimal (value : Nat) : List UInt8 :=
  (Nat.toDigits 10 value).map ch

theorem isDigit_toNat {character : Char} (digit : character.isDigit = true) :
    48 ≤ character.toNat ∧ character.toNat ≤ 57 := by
  have bounds : 48 ≤ character.val ∧ character.val ≤ 57 := by
    simpa [Char.isDigit] using digit
  exact ⟨UInt32.le_iff_toNat_le.mp bounds.1,
    UInt32.le_iff_toNat_le.mp bounds.2⟩

theorem ch_toNat {character : Char} (digit : character.isDigit = true) :
    (ch character).toNat = character.toNat := by
  have bounds := isDigit_toNat digit
  rw [ch, UInt8.toNat_ofNat', Nat.mod_eq_of_lt (by omega)]

theorem decimal_isDigit {value : Nat} {byte : UInt8}
    (member : byte ∈ decimal value) : isDigit byte = true := by
  rcases List.mem_map.mp member with ⟨character, among, rfl⟩
  have digit := Nat.isDigit_of_mem_toDigits (by decide) (by decide) among
  have bounds := isDigit_toNat digit
  have low : (ch '0').toNat ≤ (ch character).toNat := by
    rw [ch_toNat digit]
    exact bounds.1
  have high : (ch character).toNat ≤ (ch '9').toNat := by
    rw [ch_toNat digit]
    exact bounds.2
  rw [isDigit, Bool.and_eq_true, decide_eq_true_eq, decide_eq_true_eq]
  exact ⟨UInt8.le_iff_toNat_le.mpr low, UInt8.le_iff_toNat_le.mpr high⟩

theorem decimal_characters (value : Nat) :
    (decimal value).map (fun byte => Char.ofNat byte.toNat) =
      Nat.toDigits 10 value := by
  rw [decimal, List.map_map]
  conv => rhs; rw [← List.map_id (Nat.toDigits 10 value)]
  apply List.map_congr_left
  intro character member
  have digit := Nat.isDigit_of_mem_toDigits (by decide) (by decide) member
  rw [Function.comp_apply, ch_toNat digit, Char.ofNat_toNat]
  rfl

theorem decimal_inj {first second : Nat}
    (same : decimal first = decimal second) : first = second := by
  rw [← @Nat.ofDigitChars_ten_toDigits first,
    ← @Nat.ofDigitChars_ten_toDigits second, ← decimal_characters, same,
    decimal_characters]

theorem decimal_length_le_iff {value count : Nat} (positive : 0 < count) :
    (decimal value).length ≤ count ↔ value < 10 ^ count := by
  rw [decimal, List.length_map]
  exact Nat.length_toDigits_le_iff (by decide) positive

theorem decimal_nonempty (value : Nat) : decimal value ≠ [] :=
  fun empty => Nat.toDigits_ne_nil (List.map_eq_nil_iff.mp empty)

theorem foldl_digits {characters : List Char} (total : Nat)
    (digits : ∀ character ∈ characters, character.isDigit = true) :
    (characters.map ch).foldl
        (fun total digit => total * 10 + digitValue digit) (total : Int) =
      Nat.ofDigitChars 10 characters total := by
  induction characters generalizing total with
  | nil =>
      simp
  | cons character rest inductionHypothesis =>
      have digit := digits character List.mem_cons_self
      have bounds := isDigit_toNat digit
      have zero : (ch '0').toNat = 48 := rfl
      have value : (total : Int) * 10 + digitValue (ch character) =
          (10 * total + (character.toNat - '0'.toNat) : Nat) := by
        have mark : '0'.toNat = 48 := rfl
        rw [digitValue, ch_toNat digit, zero, mark]
        omega
      rw [List.map_cons, List.foldl_cons, value, Nat.ofDigitChars_cons]
      exact inductionHypothesis _
        fun other member => digits other (List.mem_cons_of_mem _ member)

/-- The digits of a number denote it. -/
theorem decimal_foldl (value : Nat) :
    (decimal value).foldl
      (fun total digit => total * 10 + digitValue digit) (0 : Int) =
        value := by
  have read := @foldl_digits (Nat.toDigits 10 value) 0
    fun character member =>
      Nat.isDigit_of_mem_toDigits (by decide) (by decide) member
  rwa [Nat.ofDigitChars_ten_toDigits] at read

/-- What stands before the first separator, and what stands behind it. -/
theorem split_at_separator {separator : UInt8}
    {first second rest others : List UInt8} (firstFree : separator ∉ first)
    (secondFree : separator ∉ second)
    (same : first ++ separator :: rest = second ++ separator :: others) :
    first = second ∧ rest = others := by
  have before : ∀ {bytes : List UInt8} (tail : List UInt8),
      separator ∉ bytes →
        (bytes ++ separator :: tail).takeWhile (· != separator) = bytes := by
    intro bytes tail free
    have passes : ∀ byte ∈ bytes, (byte != separator) = true := by
      intro byte member
      have different : byte ≠ separator :=
        fun isSeparator => free (isSeparator ▸ member)
      simpa using different
    rw [List.takeWhile_append_of_pos passes]
    simp
  have fronts : first = second := by
    rw [← before rest firstFree, ← before others secondFree, same]
  subst fronts
  have behind := List.append_cancel_left same
  exact ⟨rfl, (List.cons.inj behind).2⟩

end CText
