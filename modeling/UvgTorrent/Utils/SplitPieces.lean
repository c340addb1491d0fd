import UvgTorrent.Library.Pieces
import UvgTorrent.Utils.Split

/-!
# The pieces of any text

`string_split` splits at colons, whatever delimiter it is given, and copies
each piece into an array of 256 bytes without a test.  The pieces of a text
are told by `List.splitOn`.
-/

namespace UvgTorrent

open CProgram CText CArray MachineInt ListPieces

/-! ## Splitting and joining -/

/-- The list that `string_split` returns splits the text at the delimiter. -/
def SplitsAt (input : CString) (delimeter : UInt8) : Prop :=
  ∃ scan, stringSplit input delimeter = .ok scan ∧
    (∀ piece ∈ scan.list.values, delimeter ∉ piece.bytes) ∧
    scan.list.values.length = input.bytes.count delimeter + 1 ∧
    [delimeter].intercalate (scan.list.values.map CString.bytes) =
      input.bytes

/-- The pieces between the colons of a text. -/
def colonPieces (input : CString) : List CString :=
  (input.bytes.splitOn (ch ':')).map CString.ofBytes

/-- No colon has reached the buffer or the list. -/
structure ColonFree (scan : SplitScan) : Prop where
  buffer : ch ':' ∉ scan.buffer.cells
  list : ∀ piece ∈ scan.list.values, ch ':' ∉ piece.bytes

section Joining

variable {input : CString} {delimeter : UInt8}

theorem joined_eq (pieces : List CString) :
    joined pieces = [ch ':'].intercalate (pieces.map CString.bytes) := by
  induction pieces with
  | nil =>
      rfl
  | cons first rest inductionHypothesis =>
      cases rest with
      | nil =>
          exact List.intercalate_singleton.symm
      | cons second rest =>
          rw [joined, inductionHypothesis, List.map_cons, List.map_cons,
            List.map_cons, List.intercalate_cons_cons, List.append_assoc]
          rfl

theorem colonPieces_bytes (input : CString) :
    (colonPieces input).map CString.bytes =
      input.bytes.splitOn (ch ':') := by
  rw [colonPieces, List.map_map]
  conv_rhs => rw [← List.map_id (input.bytes.splitOn (ch ':'))]
  refine List.map_congr_left fun piece member => ?_
  have noNul : 0 ∉ piece := fun nul =>
    input.noNul ((mem_splitOn member).2.subset nul)
  exact congrArg CString.bytes (CString.ofBytes_noNul noNul)

theorem colonPieces_joined (input : CString) :
    input.bytes = joined (colonPieces input) := by
  rw [joined_eq, colonPieces_bytes, List.intercalate_splitOn]

theorem colonPieces_nonempty (input : CString) :
    colonPieces input ≠ [] :=
  mt List.map_eq_nil_iff.mp (List.splitOn_ne_nil _ _)

/-- With short pieces the list holds what stands between the colons. -/
theorem stringSplit_pieces
    (short : ∀ piece ∈ input.bytes.splitOn (ch ':'), piece.length ≤ 255)
    (small : input.strlen < 2 ^ 31) (delimeter : UInt8) :
    ∃ scan, stringSplit input delimeter = .ok scan ∧
      scan.list = ⟨colonPieces input, (colonPieces input).length⟩ := by
  have fits : ∀ piece ∈ colonPieces input, PieceFits piece := by
    intro piece member
    have among : piece.bytes ∈ input.bytes.splitOn (ch ':') := by
      rw [← colonPieces_bytes]
      exact List.mem_map_of_mem member
    exact ⟨(mem_splitOn among).1, Nat.lt_succ_of_le (short _ among)⟩
  rcases stringSplit_joined (colonPieces_joined input)
    (colonPieces_nonempty input) fits small delimeter with
    ⟨scan, split, _, list⟩
  exact ⟨scan, split, list⟩

theorem splitStart_free : ColonFree splitStart := by
  refine ⟨?_, ?_⟩
  · intro member
    have zero := List.eq_of_mem_replicate member
    exact absurd zero (by decide)
  · intro piece member
    exact absurd member List.not_mem_nil

theorem appendPiece_free {scan : SplitScan} {list : Linkedlist CString}
    (free : ColonFree scan) (appended : appendPiece scan = .ok list) :
    (∀ piece ∈ list.values, ch ':' ∉ piece.bytes) ∧
      list.values.length = scan.list.values.length + 1 := by
  rw [appendPiece, bind_eq_ok_iff] at appended
  rcases appended with ⟨piece, read, extended⟩
  have found : CString.ofBytes scan.buffer.cells = piece := by
    rw [readString] at read
    split at read
    · exact Except.ok.inj read
    · cases read
  have listed := Except.ok.inj extended
  rw [← listed]
  refine ⟨?_, List.length_append⟩
  intro other member
  rcases List.mem_append.mp member with earlier | last
  · exact free.list other earlier
  · rw [List.mem_singleton.mp last, ← found]
    exact fun inside =>
      free.buffer ((List.takeWhile_sublist _).subset inside)

theorem splitStep_free {byte : UInt8} {scan after : SplitScan}
    (free : ColonFree scan) (stepped : splitStep byte scan = .ok after) :
    ColonFree after ∧
      after.list.values.length =
        scan.list.values.length + [byte].count (ch ':') := by
  rw [splitStep] at stepped
  by_cases isColon : byte = ch ':'
  · rw [if_neg (not_not.mpr isColon), bind_eq_ok_iff] at stepped
    rcases stepped with ⟨list, appended, result⟩
    have facts := appendPiece_free free appended
    rw [← Except.ok.inj result, isColon]
    refine ⟨⟨?_, facts.1⟩, facts.2⟩
    intro member
    have zero := List.eq_of_mem_replicate member
    exact absurd zero (by decide)
  · rw [if_pos isColon] at stepped
    rw [← Except.ok.inj stepped, List.count_eq_zero.mpr
      (mt List.mem_singleton.mp (Ne.symm isColon))]
    refine ⟨⟨?_, free.list⟩, rfl⟩
    intro member
    simp only [Buffer.store] at member
    split at member
    · rcases List.mem_or_eq_of_mem_set member with earlier | stored
      · exact free.buffer earlier
      · exact isColon stored.symm
    · exact free.buffer member

theorem subscript_ok {i : Nat} (inside : i ≤ 2 ^ 31)
    (subscripted : subscript i = .ok ()) : i < 2 ^ 31 := by
  rcases Nat.lt_or_eq_of_le inside with below | limit
  · exact below
  · rw [limit] at subscripted
    cases subscripted

/-- A loop that ends has counted the colons and has copied none. -/
theorem splitLoop_free {rest : List UInt8} {i : Nat}
    {scan after : SplitScan} (inside : i ≤ 2 ^ 31) (free : ColonFree scan)
    (looped : splitLoop rest i scan = .ok after) :
    i + rest.length < 2 ^ 31 ∧ ColonFree after ∧
      after.list.values.length =
        scan.list.values.length + rest.count (ch ':') := by
  induction rest generalizing i scan with
  | nil =>
      rw [splitLoop, bind_eq_ok_iff] at looped
      rcases looped with ⟨_, subscripted, result⟩
      rw [← Except.ok.inj result]
      exact ⟨subscript_ok inside subscripted, free, rfl⟩
  | cons byte rest inductionHypothesis =>
      rw [splitLoop, bind_eq_ok_iff] at looped
      rcases looped with ⟨_, subscripted, further⟩
      rw [bind_eq_ok_iff] at further
      rcases further with ⟨middle, stepped, remaining⟩
      have below := subscript_ok inside subscripted
      have facts := splitStep_free free stepped
      have ended := inductionHypothesis below facts.1 remaining
      refine ⟨?_, ended.2.1, ?_⟩
      · rw [List.length_cons]
        omega
      · have counts : (byte :: rest).count (ch ':') =
            [byte].count (ch ':') + rest.count (ch ':') :=
          @List.count_append _ _ _ [byte] rest
        rw [ended.2.2, facts.2, counts, Nat.add_assoc]

/-- A text that is split is short, and its list has one piece more than the
text has colons, each of them without a colon. -/
theorem stringSplit_free {scan : SplitScan}
    (split : stringSplit input delimeter = .ok scan) :
    input.strlen < 2 ^ 31 ∧
      (∀ piece ∈ scan.list.values, ch ':' ∉ piece.bytes) ∧
      scan.list.values.length = input.bytes.count (ch ':') + 1 := by
  rw [stringSplit, bind_eq_ok_iff] at split
  rcases split with ⟨last, looped, finished⟩
  rw [bind_eq_ok_iff] at finished
  rcases finished with ⟨list, appended, result⟩
  have facts := splitLoop_free (Nat.zero_le _) splitStart_free looped
  have ended := appendPiece_free facts.2.1 appended
  have counted : last.list.values.length =
      input.bytes.count (ch ':') := by
    rw [facts.2.2]
    exact Nat.zero_add _
  rw [← Except.ok.inj result]
  refine ⟨?_, ended.1, ?_⟩
  · rw [← Nat.zero_add input.strlen]
    exact facts.1
  · rw [ended.2, counted]

/-- Where the delimiter and the colon cut a text at the same places, the list
is the right one. -/
theorem splitsAt_of_pieces
    (same : input.bytes.splitOn delimeter = input.bytes.splitOn (ch ':'))
    (short : ∀ piece ∈ input.bytes.splitOn delimeter, piece.length ≤ 255)
    (small : input.strlen < 2 ^ 31) : SplitsAt input delimeter := by
  have colonShort := short
  rw [same] at colonShort
  rcases stringSplit_pieces colonShort small delimeter with
    ⟨scan, split, list⟩
  have pieces : scan.list.values.map CString.bytes =
      input.bytes.splitOn delimeter := by
    rw [list, colonPieces_bytes, same]
  refine ⟨scan, split, ?_, ?_, ?_⟩
  · intro piece member
    have among : piece.bytes ∈ input.bytes.splitOn delimeter := by
      rw [← pieces]
      exact List.mem_map_of_mem member
    exact (mem_splitOn among).1
  · rw [← length_splitOn, ← pieces, List.length_map]
  · rw [pieces, List.intercalate_splitOn]

theorem splitsAt_free (splits : SplitsAt input delimeter)
    (other : delimeter ≠ ch ':') :
    delimeter ∉ input.bytes ∧ ch ':' ∉ input.bytes := by
  rcases splits with ⟨scan, split, _, count, whole⟩
  have facts := stringSplit_free split
  have noColon : ch ':' ∉ input.bytes := by
    intro colon
    rw [← whole] at colon
    rcases mem_intercalate colon with between | ⟨bytes, member, inside⟩
    · exact other (List.mem_singleton.mp between).symm
    · rcases List.mem_map.mp member with ⟨piece, among, rfl⟩
      exact facts.2.1 piece among inside
  refine ⟨?_, noColon⟩
  -- without a colon there is one piece, so the delimiter cuts nowhere
  rw [count, List.count_eq_zero.mpr noColon] at facts
  exact List.count_eq_zero.mp (Nat.succ.inj facts.2.2)

/-- `string_split` is the inverse of joining where the delimiter is the
colon, and of no other delimiter unless the text has neither. -/
theorem stringSplit_splitsAt_iff (input : CString) (delimeter : UInt8)
    (short : ∀ piece ∈ input.bytes.splitOn delimeter,
      piece.length ≤ 255) :
    SplitsAt input delimeter ↔
      (delimeter = ch ':' ∧ input.strlen < 2 ^ 31) ∨
        (delimeter ∉ input.bytes ∧ ch ':' ∉ input.bytes) := by
  constructor
  · intro splits
    by_cases isColon : delimeter = ch ':'
    · rcases splits with ⟨scan, split, _⟩
      exact .inl ⟨isColon, (stringSplit_free split).1⟩
    · exact .inr (splitsAt_free splits isColon)
  · rintro (⟨isColon, small⟩ | ⟨noDelimeter, noColon⟩)
    · exact splitsAt_of_pieces (by rw [isColon]) short small
    · have whole := List.splitOn_eq_singleton noDelimeter
      have length : input.bytes.length ≤ 255 := by
        refine short input.bytes ?_
        rw [whole]
        exact List.mem_singleton_self _
      have same : input.bytes.splitOn delimeter =
          input.bytes.splitOn (ch ':') := by
        rw [whole, List.splitOn_eq_singleton noColon]
      exact splitsAt_of_pieces same short
        (Nat.lt_of_le_of_lt length (by decide))

theorem stringSplit_splitsAt_iff_colons :
    (∀ piece ∈ (text "udp:host:80").splitOn (ch ':'), piece.length ≤ 255) ∧
      SplitsAt (CString.ofBytes (text "udp:host:80")) (ch ':') := by
  have short : ∀ piece ∈ (text "udp:host:80").splitOn (ch ':'),
      piece.length ≤ 255 := by decide
  exact ⟨short, (stringSplit_splitsAt_iff
    (CString.ofBytes (text "udp:host:80")) (ch ':') short).mpr
      (.inl ⟨rfl, by decide⟩)⟩

/-- A comma as the delimiter leaves `a,b` whole. -/
theorem stringSplit_comma_whole :
    (∀ piece ∈ (text "a,b").splitOn (ch ','), piece.length ≤ 255) ∧
      ¬ SplitsAt (CString.ofBytes (text "a,b")) (ch ',') := by
  refine ⟨by decide, ?_⟩
  intro splits
  exact (splitsAt_free splits (by decide)).1 (by decide)

end Joining

/-! ## The buffer -/

/-- A use of `buffer`: a store at an index, or `strlen` of what it holds. -/
inductive BufferUse where
  | write (index : Nat)
  | measure (cells : List UInt8)

/-- The store hits the array, and `strlen` ends inside it. -/
def BufferUse.Inside : BufferUse → Prop
  | .write index => index < splitBufferSize
  | .measure cells => 0 ∈ cells

/-- The use of the buffer in `splitStep`. -/
def stepUse (byte : UInt8) (scan : SplitScan) : BufferUse :=
  if byte ≠ ch ':' then
    .write scan.strPos
  else
    .measure scan.buffer.cells

/-- The uses behind a run, of which there are none when it stops. -/
def usesAfter {α : Type} (run : Exec α) (uses : α → List BufferUse) :
    List BufferUse :=
  match run with
  | .ok value => uses value
  | .error _ => []

/-- The uses of the buffer in `splitLoop` and in the append behind it. -/
def splitUses : List UInt8 → Nat → SplitScan → List BufferUse
  | [], i, scan =>
      usesAfter (subscript i) fun _ => [.measure scan.buffer.cells]
  | byte :: rest, i, scan =>
      usesAfter (subscript i) fun _ =>
        stepUse byte scan ::
          usesAfter (splitStep byte scan) fun next =>
            splitUses rest (i + 1) next

/-- `string_split` never leaves its buffer. -/
def StaysInBuffer (input : CString) : Prop :=
  ∀ use ∈ splitUses input.bytes 0 splitStart, use.Inside

section Uses

variable {rest read : List UInt8} {i left : Nat} {pieces : List CString}
  {byte : UInt8}

theorem splitUses_nil (small : i < 2 ^ 31) (scan : SplitScan) :
    splitUses [] i scan = [.measure scan.buffer.cells] := by
  rw [splitUses, subscript_of_lt small]
  rfl

theorem splitUses_cons (small : i < 2 ^ 31) (scan : SplitScan) :
    splitUses (byte :: rest) i scan =
      stepUse byte scan ::
        usesAfter (splitStep byte scan) fun next =>
          splitUses rest (i + 1) next := by
  rw [splitUses, subscript_of_lt small]
  rfl

/-- Behind the largest `int` the run has stopped. -/
theorem splitUses_beyond (beyond : i = 2 ^ 31) (scan : SplitScan) :
    splitUses rest i scan = [] := by
  have overflow : subscript i = .error .readPast := by
    rw [beyond]
    exact if_neg (by decide)
  cases rest with
  | nil =>
      rw [splitUses, overflow]
      rfl
  | cons byte rest =>
      rw [splitUses, overflow]
      rfl

theorem measure_inside (room : read.length < splitBufferSize) :
    (BufferUse.measure (readingPiece pieces read).buffer.cells).Inside :=
  List.mem_append_right _ (List.mem_replicate.mpr
    ⟨Nat.ne_of_gt (Nat.sub_pos_of_lt room), rfl⟩)

/-- The buffer can be used while a piece of fewer than 256 bytes is in it. -/
theorem stepUse_inside (room : read.length < splitBufferSize) :
    (stepUse byte (readingPiece pieces read)).Inside := by
  rw [stepUse]
  split
  · exact room
  · exact measure_inside room

/-- With 256 bytes in it, every further use leaves the buffer. -/
theorem splitUses_full (small : i < 2 ^ 31) (noNul : 0 ∉ read)
    (full : read.length = splitBufferSize) :
    ¬ ∀ use ∈ splitUses rest i (readingPiece pieces read), use.Inside := by
  have unterminated : 0 ∉ (readingPiece pieces read).buffer.cells := by
    show 0 ∉ read ++ List.replicate (splitBufferSize - read.length) 0
    rw [full, Nat.sub_self, List.replicate_zero, List.append_nil]
    exact noNul
  intro inside
  cases rest with
  | nil =>
      rw [splitUses_nil small, List.forall_mem_singleton] at inside
      exact unterminated inside
  | cons byte rest =>
      have first : (stepUse byte (readingPiece pieces read)).Inside := by
        refine inside _ ?_
        rw [splitUses_cons small]
        exact List.mem_cons_self
      rw [stepUse] at first
      split at first
      · exact absurd first (Nat.not_lt.mpr (Nat.le_of_eq full.symm))
      · exact unterminated first

/-- With the counter at its largest value there is one more use. -/
theorem splitUses_last (place : i + 1 = 2 ^ 31)
    (room : read.length < splitBufferSize) :
    ∀ use ∈ splitUses rest i (readingPiece pieces read), use.Inside := by
  have small : i < 2 ^ 31 := by omega
  cases rest with
  | nil =>
      rw [splitUses_nil small, List.forall_mem_singleton]
      exact measure_inside room
  | cons byte rest =>
      rw [splitUses_cons small, List.forall_mem_cons]
      refine ⟨stepUse_inside room, fun use member => ?_⟩
      cases stepped : splitStep byte (readingPiece pieces read) with
      | ok next =>
          rw [stepped, usesAfter, splitUses_beyond place] at member
          exact absurd member List.not_mem_nil
      | error stop =>
          rw [stepped] at member
          exact absurd member List.not_mem_nil

theorem notMem_snoc {front : List UInt8} {other : UInt8}
    (absent : other ∉ front) (different : byte ≠ other) :
    other ∉ front ++ [byte] := by
  rw [List.mem_append, not_or]
  exact ⟨absent, mt List.mem_singleton.mp (Ne.symm different)⟩

/-- The uses from a piece of which fewer than 256 bytes are read. -/
theorem splitUses_reading (place : i + left + 1 = 2 ^ 31)
    (noNul : 0 ∉ read) (noColon : ch ':' ∉ read)
    (room : read.length < splitBufferSize) (restNul : 0 ∉ rest) :
    (∀ use ∈ splitUses rest i (readingPiece pieces read), use.Inside) ↔
      ∀ piece ∈ (read ++ rest.take left).splitOn (ch ':'),
        piece.length ≤ 255 := by
  have size : splitBufferSize = 256 := rfl
  have fewer : read.length ≤ 255 := Nat.le_of_lt_succ room
  induction left generalizing i rest read pieces with
  | zero =>
      rw [List.take_zero, List.append_nil,
        List.splitOn_eq_singleton noColon, List.forall_mem_singleton]
      exact iff_of_true (splitUses_last place room) fewer
  | succ left inductionHypothesis =>
      cases rest with
      | nil =>
          rw [splitUses_nil (by omega), List.forall_mem_singleton,
            List.take_nil, List.append_nil,
            List.splitOn_eq_singleton noColon, List.forall_mem_singleton]
          exact iff_of_true (measure_inside room) fewer
      | cons byte rest =>
          rw [List.mem_cons, not_or] at restNul
          have first := @stepUse_inside read pieces byte room
          have further : i + 1 + left + 1 = 2 ^ 31 := by omega
          rw [splitUses_cons (by omega), List.forall_mem_cons,
            and_iff_right first, List.take_succ_cons]
          by_cases isColon : byte = ch ':'
          · have fits : PieceFits ⟨read, noNul⟩ := ⟨noColon, room⟩
            have stepped := splitStep_colon pieces fits
            rw [isColon, stepped, List.splitOn_append_cons_self,
              List.splitOn_eq_singleton noColon, List.singleton_append,
              List.forall_mem_cons, and_iff_right fewer]
            exact inductionHypothesis further List.not_mem_nil
              List.not_mem_nil (by decide) restNul.2 (by decide)
          · have stepped := splitStep_byte pieces isColon room
            have longerNul := notMem_snoc noNul (Ne.symm restNul.1)
            have longerColon := notMem_snoc noColon isColon
            have longer : (read ++ [byte]).length = read.length + 1 :=
              List.length_append
            rw [stepped, usesAfter,
              List.append_cons read byte (rest.take left)]
            rcases Nat.lt_or_eq_of_le (Nat.succ_le_of_lt room) with
              below | full
            · exact inductionHypothesis further longerNul longerColon
                (by omega) restNul.2 (by omega)
            · refine iff_of_false
                (splitUses_full (by omega) longerNul (by omega)) ?_
              intro short
              rcases exists_long_piece (rest.take left) longerColon with
                ⟨piece, member, bound⟩
              have limit := short piece member
              omega

/-- `string_split` stays inside its buffer exactly for short pieces.  Of a
text that the counter cannot pass, only the front counts. -/
theorem stringSplit_buffer_iff (input : CString) :
    StaysInBuffer input ↔
      ∀ piece ∈ (input.bytes.take (2 ^ 31 - 1)).splitOn (ch ':'),
        piece.length ≤ 255 :=
  splitUses_reading (by decide) List.not_mem_nil List.not_mem_nil
    (by decide) input.noNul

/-- A text without colons, of 256 letters. -/
def longPiece : CString where
  bytes := List.replicate 256 (ch 'a')
  noNul := fun nul => absurd (List.eq_of_mem_replicate nul) (by decide)

theorem longPiece_leaves : ¬ StaysInBuffer longPiece := by
  have noColon : ch ':' ∉ List.replicate 256 (ch 'a') := fun colon =>
    absurd (List.eq_of_mem_replicate colon) (by decide)
  have start : 0 + (2 ^ 31 - 1) + 1 = 2 ^ 31 := by decide
  have fits : longPiece.bytes.length ≤ 2 ^ 31 - 1 := by
    rw [longPiece, List.length_replicate]
    decide
  intro inside
  have short := (@splitUses_reading longPiece.bytes [] 0 _ [] start
    List.not_mem_nil List.not_mem_nil (by decide) longPiece.noNul).mp inside
  rw [List.nil_append, List.take_of_length_le fits, longPiece,
    List.splitOn_eq_singleton noColon, List.forall_mem_singleton,
    List.length_replicate] at short
  exact absurd short (by decide)

end Uses

end UvgTorrent
