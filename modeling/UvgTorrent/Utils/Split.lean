import UvgTorrent.DataStructures.Linkedlist
import UvgTorrent.Library.Buffer
import UvgTorrent.Library.CString
import UvgTorrent.Library.MachineInt

/-!
# Splitting a text

`string_split` copies the text into a buffer, character by character, and
appends the buffer to a list at each colon and at the end.
-/

namespace UvgTorrent

open CProgram CText CArray MachineInt

/-- `text[i]` with an `int` counter: behind its largest value it reads in
front of the text. -/
def subscript (i : Nat) : Exec Unit :=
  if 0 ≤ toInt32 i then pure () else .error .readPast

structure SplitScan where
  list : Linkedlist CString
  buffer : Buffer
  strPos : Nat

/-- The size of `buffer`. -/
def splitBufferSize : Nat := 256

/-- The append of the buffer as the string that it holds. -/
def appendPiece (scan : SplitScan) : Exec (Linkedlist CString) := do
  let piece ← readString scan.buffer.cells
  pure (linkedlistAppend scan.list piece).2

/-- One round of the loop.  The position stays below the length of the
text. -/
def splitStep (byte : UInt8) (scan : SplitScan) : Exec SplitScan :=
  -- the colon is written out, and not taken from the argument
  if byte ≠ ch ':' then
    pure { scan with
      buffer := scan.buffer.store scan.strPos byte
      strPos := scan.strPos + 1 }
  else do
    let list ← appendPiece scan
    pure ⟨list, scan.buffer.clear, 0⟩

def splitLoop : List UInt8 → Nat → SplitScan → Exec SplitScan
  | [], i, scan => do
      subscript i
      pure scan
  | byte :: rest, i, scan => do
      subscript i
      let scan ← splitStep byte scan
      splitLoop rest (i + 1) scan

def splitStart : SplitScan :=
  ⟨linkedlistNew, .zeroed splitBufferSize, 0⟩

/-- `string_split`, with its buffer as it is left. -/
def stringSplit (input : CString) (_delimeter : UInt8) :
    Exec SplitScan := do
  let scan ← splitLoop input.bytes 0 splitStart
  let list ← appendPiece scan
  pure { scan with list }

/-! ## Strings in a buffer -/

theorem subscript_of_lt {i : Nat} (small : i < 2 ^ 31) :
    subscript i = .ok () := by
  have counter : 0 ≤ toInt32 i := by
    rw [toInt32_of_range (by omega) (by omega)]
    omega
  exact if_pos counter

theorem readString_holding {string : CString} {size : Nat}
    (room : string.bytes.length < size) :
    CString.ofBytes (Buffer.holding size string.bytes).cells = string ∧
      readString (Buffer.holding size string.bytes).cells = .ok string := by
  have zeros : size - string.bytes.length =
      size - (string.bytes.length + 1) + 1 := by
    omega
  have found :
      CString.ofBytes (Buffer.holding size string.bytes).cells = string := by
    unfold Buffer.holding Buffer.ofCells
    rw [zeros, List.replicate_succ]
    exact CString.ofBytes_append_bytes string _
  have terminated : 0 ∈ (Buffer.holding size string.bytes).cells := by
    unfold Buffer.holding Buffer.ofCells
    rw [zeros, List.replicate_succ]
    simp
  exact ⟨found, by rw [readString, if_pos terminated, found]⟩

/-! ## The pieces -/

/-- Texts with colons between them. -/
def joined : List CString → List UInt8
  | [] => []
  | [last] => last.bytes
  | first :: second :: rest =>
      first.bytes ++ ch ':' :: joined (second :: rest)

/-- A piece that fits into the buffer. -/
structure PieceFits (piece : CString) : Prop where
  noColon : ch ':' ∉ piece.bytes
  short : piece.bytes.length < splitBufferSize

theorem joined_cons {first : CString} {rest : List CString}
    (more : rest ≠ []) :
    joined (first :: rest) = first.bytes ++ ch ':' :: joined rest := by
  cases rest with
  | nil => exact absurd rfl more
  | cons second rest => rfl

/-- A short text consists of fitting pieces, and the first one is what stands
before the first colon. -/
theorem exists_joined {bytes : List UInt8} (noNul : 0 ∉ bytes)
    (short : bytes.length < splitBufferSize) :
    ∃ first rest, bytes = joined (first :: rest) ∧
      first.bytes = bytes.takeWhile (· != ch ':') ∧
      ∀ piece ∈ first :: rest, PieceFits piece := by
  induction bytes with
  | nil =>
      refine ⟨⟨[], List.not_mem_nil⟩, [], rfl, rfl, ?_⟩
      rw [List.forall_mem_singleton]
      exact ⟨List.not_mem_nil, short⟩
  | cons byte bytes inductionHypothesis =>
      rw [List.mem_cons, not_or] at noNul
      rw [List.length_cons] at short
      rcases inductionHypothesis noNul.2 (Nat.lt_of_succ_lt short) with
        ⟨first, rest, whole, front, fits⟩
      by_cases isColon : byte = ch ':'
      · refine ⟨⟨[], List.not_mem_nil⟩, first :: rest, ?_, ?_, ?_⟩
        · rw [joined_cons (List.cons_ne_nil _ _), ← whole, isColon]
          rfl
        · rw [isColon, List.takeWhile_cons_of_neg (by simp)]
        · rw [List.forall_mem_cons]
          exact ⟨⟨List.not_mem_nil, by decide⟩, fits⟩
      · rw [List.forall_mem_cons] at fits
        have bound : first.bytes.length ≤ bytes.length := by
          rw [front]
          exact (List.takeWhile_sublist _).length_le
        have longer : 0 ∉ byte :: first.bytes := by
          rw [List.mem_cons, not_or]
          exact ⟨noNul.1, first.noNul⟩
        refine ⟨⟨byte :: first.bytes, longer⟩, rest, ?_, ?_, ?_⟩
        · cases rest with
          | nil => exact congrArg (byte :: ·) whole
          | cons second rest => exact congrArg (byte :: ·) whole
        · rw [List.takeWhile_cons_of_pos (by simpa using isColon), ← front]
        · rw [List.forall_mem_cons]
          refine ⟨⟨?_, ?_⟩, fits.2⟩
          · rw [List.mem_cons, not_or]
            exact ⟨Ne.symm isColon, fits.1.noColon⟩
          · rw [List.length_cons]
            omega

/-- The scan after `pieces`, when `read` has been copied of the next one. -/
def readingPiece (pieces : List CString) (read : List UInt8) : SplitScan :=
  ⟨⟨pieces, pieces.length⟩, .holding splitBufferSize read, read.length⟩

section Pieces

/-- A byte other than the colon is copied into the buffer. -/
theorem splitStep_byte (pieces : List CString) {read : List UInt8}
    {byte : UInt8} (noColon : byte ≠ ch ':')
    (room : read.length < splitBufferSize) :
    splitStep byte (readingPiece pieces read) =
      .ok (readingPiece pieces (read ++ [byte])) := by
  rw [splitStep, if_pos noColon]
  simp only [readingPiece]
  rw [Buffer.store_holding room, List.length_append]
  rfl

theorem splitLoop_bytes {bytes rest read : List UInt8} {i : Nat}
    {pieces : List CString} (noColon : ch ':' ∉ bytes)
    (small : i + bytes.length < 2 ^ 31)
    (room : read.length + bytes.length < splitBufferSize) :
    splitLoop (bytes ++ rest) i (readingPiece pieces read) =
      splitLoop rest (i + bytes.length)
        (readingPiece pieces (read ++ bytes)) := by
  induction bytes generalizing i read with
  | nil =>
      rw [List.nil_append, List.append_nil, List.length_nil, Nat.add_zero]
  | cons byte bytes inductionHypothesis =>
      rw [List.length_cons] at small room
      rw [List.mem_cons, not_or] at noColon
      have stepped := splitStep_byte pieces (Ne.symm noColon.1)
        (Nat.lt_of_le_of_lt (Nat.le_add_right _ _) room)
      have further := @inductionHypothesis (read ++ [byte]) (i + 1)
        noColon.2 (by omega)
        (by rw [List.length_append, List.length_singleton]; omega)
      rw [List.cons_append, splitLoop, subscript_of_lt (by omega), ok_bind,
        stepped, ok_bind, further, List.append_assoc, List.length_cons,
        Nat.add_right_comm i 1, Nat.add_assoc]
      rfl

theorem appendPiece_reading (pieces : List CString) {piece : CString}
    (fits : PieceFits piece) :
    appendPiece (readingPiece pieces piece.bytes) =
      .ok ⟨pieces ++ [piece], (pieces ++ [piece]).length⟩ := by
  have read := (readString_holding fits.short).2
  rw [appendPiece, readingPiece, read, ok_bind, linkedlistAppend,
    List.length_append]
  rfl

theorem splitStep_colon (pieces : List CString) {piece : CString}
    (fits : PieceFits piece) :
    splitStep (ch ':') (readingPiece pieces piece.bytes) =
      .ok (readingPiece (pieces ++ [piece]) []) := by
  have cleared := Buffer.clear_holding (Nat.le_of_lt fits.short)
  rw [splitStep, if_neg (not_not.mpr rfl), appendPiece_reading pieces fits,
    ok_bind]
  simp only [readingPiece]
  rw [cleared]
  rfl

/-- The loop, and the append behind it. -/
theorem splitLoop_joined {pieces : List CString} (nonempty : pieces ≠ [])
    (fits : ∀ piece ∈ pieces, PieceFits piece) {i : Nat}
    {before : List CString} (small : i + (joined pieces).length < 2 ^ 31) :
    ∃ scan, splitLoop (joined pieces) i (readingPiece before []) =
        .ok scan ∧
      scan.buffer.stray = [] ∧
      appendPiece scan =
        .ok ⟨before ++ pieces, (before ++ pieces).length⟩ := by
  induction pieces using joined.induct generalizing i before with
  | case1 =>
      exact absurd rfl nonempty
  | case2 last =>
      have lastFits := fits last List.mem_cons_self
      rw [joined] at small
      have copied := @splitLoop_bytes last.bytes [] [] i before
        lastFits.noColon small (by simpa using lastFits.short)
      rw [List.append_nil, List.nil_append] at copied
      refine ⟨readingPiece before last.bytes, ?_, rfl,
        appendPiece_reading before lastFits⟩
      rw [joined, copied, splitLoop, subscript_of_lt small, ok_bind]
      rfl
  | case3 first second rest inductionHypothesis =>
      have firstFits := fits first List.mem_cons_self
      rw [joined, List.length_append, List.length_cons] at small
      have copied := @splitLoop_bytes first.bytes
        (ch ':' :: joined (second :: rest)) [] i before firstFits.noColon
        (by omega) (by simpa using firstFits.short)
      have further := @inductionHypothesis (by simp)
        (fun piece member => fits piece (List.mem_cons_of_mem first member))
        (i + first.bytes.length + 1) (before ++ [first]) (by omega)
      rw [List.append_assoc, List.singleton_append] at further
      rw [joined, copied, List.nil_append, splitLoop,
        subscript_of_lt (by omega), ok_bind,
        splitStep_colon before firstFits, ok_bind]
      exact further

/-- A text that consists of fitting pieces is split into them. -/
theorem stringSplit_joined {input : CString} {pieces : List CString}
    (whole : input.bytes = joined pieces) (nonempty : pieces ≠ [])
    (fits : ∀ piece ∈ pieces, PieceFits piece)
    (small : input.strlen < 2 ^ 31) (delimeter : UInt8) :
    ∃ scan, stringSplit input delimeter = .ok scan ∧
      scan.buffer.stray = [] ∧
      scan.list = ⟨pieces, pieces.length⟩ := by
  have bound : 0 + (joined pieces).length < 2 ^ 31 := by
    rw [← whole, Nat.zero_add]
    exact small
  rcases @splitLoop_joined pieces nonempty fits 0 [] bound with
    ⟨scan, looped, clean, appended⟩
  refine ⟨{ scan with list := ⟨pieces, pieces.length⟩ }, ?_, clean, rfl⟩
  have started : splitStart = readingPiece [] [] := rfl
  rw [stringSplit, whole, started, looped, ok_bind, appended, ok_bind]
  rfl

/-- A short text with two colons has three pieces or more, and the third one
ends at the next colon. -/
theorem stringSplit_third {input : CString}
    (short : input.bytes.length < splitBufferSize)
    {first second rest : List UInt8}
    (whole : input.bytes = first ++ ch ':' :: (second ++ ch ':' :: rest))
    (firstFree : ch ':' ∉ first) (secondFree : ch ':' ∉ second)
    (delimeter : UInt8) :
    ∃ scan firstPiece secondPiece third others,
      stringSplit input delimeter = .ok scan ∧
      scan.list = ⟨firstPiece :: secondPiece :: third :: others,
        others.length + 3⟩ ∧
      secondPiece.bytes = second ∧
      third.bytes = rest.takeWhile (· != ch ':') := by
  have size : splitBufferSize = 256 := rfl
  have noNul := input.noNul
  have small : input.strlen < 2 ^ 31 := by
    rw [CString.strlen]
    omega
  rw [whole] at noNul short
  simp only [List.mem_append, List.mem_cons, not_or] at noNul
  simp only [List.length_append, List.length_cons] at short
  rcases noNul with ⟨firstNul, _, secondNul, _, restNul⟩
  rcases exists_joined restNul (by omega) with
    ⟨third, others, joins, front, fits⟩
  have joinsAll : input.bytes =
      joined (⟨first, firstNul⟩ :: ⟨second, secondNul⟩ :: third ::
        others) := by
    rw [joined_cons (List.cons_ne_nil _ _),
      joined_cons (List.cons_ne_nil _ _), ← joins]
    exact whole
  have pieceFits : ∀ piece ∈ (⟨first, firstNul⟩ : CString) ::
      ⟨second, secondNul⟩ :: third :: others, PieceFits piece := by
    rw [List.forall_mem_cons, List.forall_mem_cons]
    refine ⟨⟨firstFree, ?_⟩, ⟨secondFree, ?_⟩, fits⟩
    · show first.length < splitBufferSize
      omega
    · show second.length < splitBufferSize
      omega
  rcases stringSplit_joined joinsAll (List.cons_ne_nil _ _) pieceFits small
    delimeter with ⟨scan, split, _, list⟩
  exact ⟨scan, _, ⟨second, secondNul⟩, third, others, split, list, rfl,
    front⟩

end Pieces

end UvgTorrent
