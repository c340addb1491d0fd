import UvgTorrent.Bencode.Survival
import UvgTorrent.Library.BencodeTree

/-!
# The reader on the encoding of a tree

Where the bytes of a tree stand in a block, the reader walks them to their
end and makes of them what `Tree.object` says.  Nothing is asked of the
bytes behind the tree, so the block need not end with a `NUL`.
-/

namespace UvgTorrent

open CProgram CText CArray MachineInt BencodeFormat

/-- The text stands at the position. -/
def HoldsAt (memory : List UInt8) (position : Nat) (text : List UInt8) :
    Prop :=
  text <+: memory.drop position

section Holding

variable {memory : List UInt8} {position : Nat}

theorem HoldsAt.front {first second : List UInt8}
    (holds : HoldsAt memory position (first ++ second)) :
    HoldsAt memory position first :=
  (List.prefix_append first second).trans holds

theorem HoldsAt.back {first second : List UInt8}
    (holds : HoldsAt memory position (first ++ second)) :
    HoldsAt memory (position + first.length) second := by
  rcases holds with ⟨tail, whole⟩
  refine ⟨tail, ?_⟩
  rw [← List.drop_drop, ← whole, List.append_assoc, List.drop_left]

theorem HoldsAt.byte {byte : UInt8} {rest : List UInt8}
    (holds : HoldsAt memory position (byte :: rest)) :
    memory[position]? = some byte := by
  rcases holds with ⟨tail, whole⟩
  have first := congrArg List.head? whole
  rw [List.head?_drop, List.cons_append, List.head?_cons] at first
  exact first.symm

theorem HoldsAt.next {byte : UInt8} {rest : List UInt8}
    (holds : HoldsAt memory position (byte :: rest)) :
    HoldsAt memory (position + 1) rest :=
  @HoldsAt.back memory position [byte] rest holds

theorem HoldsAt.inside {text : List UInt8}
    (holds : HoldsAt memory position text) (nonempty : text ≠ []) :
    position + text.length ≤ memory.length := by
  have size := holds.length_le
  have positive := List.length_pos_iff.mpr nonempty
  rw [List.length_drop] at size
  omega

theorem HoldsAt.taken {text : List UInt8}
    (holds : HoldsAt memory position text) :
    (memory.drop position).take text.length = text :=
  (List.prefix_iff_eq_take.mp holds).symm

/-- Digits with another byte behind them. -/
theorem HoldsAt.digits {digits rest : List UInt8} {stopper : UInt8}
    (holds : HoldsAt memory position (digits ++ stopper :: rest))
    (isNumber : ∀ digit ∈ digits, isDigit digit = true)
    (stops : isDigit stopper = false) :
    digitsAt memory position = digits ∧
      memory[position + digits.length]? = some stopper := by
  refine ⟨?_, holds.back.byte⟩
  rcases holds with ⟨tail, whole⟩
  rw [digitsAt, ← whole, List.append_assoc,
    List.takeWhile_append_of_pos isNumber, List.cons_append,
    List.takeWhile_cons, if_neg (by rw [stops]; decide), List.append_nil]

end Holding

theorem decimal_stop {value : Nat} {stopper : UInt8} {rest : List UInt8}
    {memory : List UInt8} {position : Nat}
    (holds : HoldsAt memory position (decimal value ++ stopper :: rest))
    (stops : isDigit stopper = false) :
    digitsAt memory position = decimal value ∧
      memory[position + (decimal value).length]? = some stopper :=
  holds.digits (fun _ member => decimal_isDigit member) stops

/-! ## Numbers -/

/-- A sum that wraps its total gives what the plain sum gives, as long as
that stays below the bound. -/
theorem foldl_wrapped {wrap : Int → Int} {bound : Int}
    (keeps : ∀ value, 0 ≤ value → value < bound → wrap value = value)
    {digits : List UInt8} (isNumber : ∀ digit ∈ digits, isDigit digit = true)
    {total : Int} (positive : 0 ≤ total)
    (small : digits.foldl
      (fun total digit => total * 10 + digitValue digit) total < bound) :
    total ≤ digits.foldl
        (fun total digit => total * 10 + digitValue digit) total ∧
      digits.foldl
        (fun total digit => wrap (wrap (total * 10) + digitValue digit))
          total =
        digits.foldl
          (fun total digit => total * 10 + digitValue digit) total := by
  induction digits generalizing total with
  | nil =>
      exact ⟨Int.le_refl _, rfl⟩
  | cons digit rest inductionHypothesis =>
      rw [List.forall_mem_cons] at isNumber
      have low : 0 ≤ digitValue digit := by
        have lower := isNumber.1
        rw [isDigit, Bool.and_eq_true, decide_eq_true_eq,
          UInt8.le_iff_toNat_le] at lower
        rw [digitValue]
        omega
      rw [List.foldl_cons] at small ⊢
      rcases inductionHypothesis isNumber.2 (by omega) small with
        ⟨grows, same⟩
      have first := keeps (total * 10) (by omega) (by omega)
      have second := keeps (total * 10 + digitValue digit) (by omega)
        (by omega)
      refine ⟨by omega, ?_⟩
      rw [List.foldl_cons, first, second]
      exact same

theorem digitsInt32_decimal {value : Nat} (small : value < 2 ^ 31) :
    digitsInt32 (decimal value) = value := by
  have plain := decimal_foldl value
  have wrapped := @foldl_wrapped toInt32 (2 ^ 31)
    (fun _ lower upper => toInt32_of_range (by omega) upper)
    (decimal value) (fun _ member => decimal_isDigit member) 0
    (Int.le_refl 0) (by rw [plain]; omega)
  rw [digitsInt32, wrapped.2, plain]

/-! ## One item -/

section Items

variable {memory : List UInt8} {position : Nat}

theorem HoldsAt.lengthAt {bytes : List UInt8}
    (holds : HoldsAt memory position (encodeText bytes))
    (small : memory.length ≤ 2 ^ 31) :
    LengthAt memory position
      (position + (decimal bytes.length).length + 1) bytes.length := by
  have nonempty : encodeText bytes ≠ [] := by
    simp [encodeText]
  have size := encodeText_length bytes
  have inside := holds.inside nonempty
  rcases decimal_stop holds (by decide) with ⟨digits, colon⟩
  refine ⟨?_, ?_, ?_, ?_⟩
  · rw [digits]
    exact decimal_nonempty _
  · rw [digits]
    exact colon
  · rw [digits]
    exact digitsInt32_decimal (by omega)
  · rw [digits]

theorem HoldsAt.body {bytes : List UInt8}
    (holds : HoldsAt memory position (encodeText bytes)) :
    (memory.drop (position + (decimal bytes.length).length + 1)).take
      bytes.length = bytes :=
  (holds.back.next).taken

theorem encodeText_end (bytes : List UInt8) :
    position + (decimal bytes.length).length + 1 + bytes.length =
      position + (encodeText bytes).length := by
  simp only [encodeText, List.length_append, List.length_cons]
  omega

/-- What the reader makes of an integer. -/
def longOf (value : Int) : Int :=
  toInt64 (digitsInt64 (decimal value.natAbs) *
    if value < 0 then -1 else 1)

/-- An integer in the block, as its digits and its end. -/
structure IntegerAt (memory : List UInt8) (position : Nat) (value : Int) :
    Prop where
  opens : memory[position]? = some (ch 'i')
  digits : digitsAt memory (intDigits memory position) ≠ []
  closes :
    memory[intDigits memory position +
      (digitsAt memory (intDigits memory position)).length]? =
        some (ch 'e')
  behind :
    intDigits memory position +
      (digitsAt memory (intDigits memory position)).length + 1 =
        position + (encodeInteger value).length
  amount : intValueAt memory position = longOf value

theorem HoldsAt.integerAt {value : Int}
    (holds : HoldsAt memory position (encodeInteger value)) :
    IntegerAt memory position value := by
  cases value with
  | ofNat magnitude =>
      have opens : memory[position]? = some (ch 'i') := holds.byte
      rcases decimal_stop holds.next (by decide) with ⟨digits, closes⟩
      have nonempty : digitsAt memory (position + 1) ≠ [] := by
        rw [digits]
        exact decimal_nonempty _
      have noSign : memory[position + 1]? ≠ some (ch '-') := by
        rcases digit_of_digitsAt nonempty with ⟨lead, held, digit⟩
        rw [held, Ne, Option.some.injEq]
        intro isSign
        rw [isSign] at digit
        exact absurd digit (by decide)
      have place : intDigits memory position = position + 1 :=
        if_neg noSign
      refine ⟨opens, ?_, ?_, ?_, ?_⟩
      · rw [place]
        exact nonempty
      · rw [place, digits]
        exact closes
      · rw [place, digits]
        simp only [encodeInteger, List.length_append, List.length_cons,
          List.length_nil]
        omega
      · have positive : ¬ Int.ofNat magnitude < 0 :=
          Int.not_lt.mpr (Int.natCast_nonneg magnitude)
        rw [intValueAt, place, digits, if_neg noSign, longOf,
          if_neg positive]
        rfl
  | negSucc magnitude =>
      have opens : memory[position]? = some (ch 'i') := holds.byte
      have sign : memory[position + 1]? = some (ch '-') := holds.next.byte
      rcases decimal_stop holds.next.next (by decide) with
        ⟨digits, closes⟩
      have place : intDigits memory position = position + 2 :=
        if_pos sign
      refine ⟨opens, ?_, ?_, ?_, ?_⟩
      · rw [place, digits]
        exact decimal_nonempty _
      · rw [place, digits]
        exact closes
      · rw [place, digits]
        simp only [encodeInteger, List.length_append, List.length_cons,
          List.length_nil]
        omega
      · rw [intValueAt, place, digits, if_pos sign, longOf,
          if_pos (Int.negSucc_lt_zero magnitude)]
        rfl

theorem lead_of_encodeText {bytes rest : List UInt8}
    (holds : HoldsAt memory position (encodeText bytes ++ rest)) :
    ∃ lead, memory[position]? = some lead ∧ isDigit lead = true := by
  have digits := (decimal_stop holds.front (by decide)).1
  apply digit_of_digitsAt
  rw [digits]
  exact decimal_nonempty _

theorem longOf_of_range {value : Nat} (small : value < 2 ^ 63) :
    longOf value = value := by
  have plain := decimal_foldl value
  have wrapped := @foldl_wrapped toInt64 (2 ^ 63)
    (fun _ lower upper => toInt64_of_range (by omega) upper)
    (decimal value) (fun _ member => decimal_isDigit member) 0
    (Int.le_refl 0) (by rw [plain]; omega)
  rw [longOf, Int.natAbs_natCast, digitsInt64, wrapped.2, plain,
    if_neg (by omega), Int.mul_one, toInt64_of_range (by omega) (by omega)]

end Items

/-! ## The skip of a tree -/

section Skipping

variable {memory : List UInt8}

/-- The bytes of a tree stand at a position, inside the window. -/
structure TreeAt (memory : List UInt8) (last : Int) (position : Nat)
    (tree : Tree) : Prop where
  holds : HoldsAt memory position tree.bytes
  fits : (position + tree.bytes.length : Int) ≤ last

/-- The bytes of entries and the end of their dictionary stand where the
walk of the dictionary comes to its next key. -/
structure EntriesAt (memory : List UInt8) (last : Int) (position : Nat)
    (entries : List TreeEntry) : Prop where
  holds : HoldsAt memory (keyPosition memory position)
    (entryBytes entries ++ [ch 'e'])
  fits :
    (keyPosition memory position + (entryBytes entries).length + 1 : Int) ≤
      last

structure ItemsAt (memory : List UInt8) (last : Int) (start position : Nat)
    (items : List Tree) : Prop where
  holds : HoldsAt memory (itemPosition memory start position)
    (itemBytes items ++ [ch 'e'])
  fits :
    (itemPosition memory start position + (itemBytes items).length + 1 :
      Int) ≤ last

/-- Where the bytes of a key begin. -/
def keyBody (memory : List UInt8) (position : Nat) (key : List UInt8) :
    Nat :=
  keyPosition memory position + (decimal key.length).length + 1

/-- Where its value begins. -/
def keyEnd (memory : List UInt8) (position : Nat) (key : List UInt8) :
    Nat :=
  keyBody memory position key + key.length

theorem EntriesAt.closes {last : Int} {position : Nat}
    (stands : EntriesAt memory last position []) :
    memory[keyPosition memory position]? = some (ch 'e') :=
  stands.holds.byte

theorem dictEnds_of_closes {last : Int} {position : Nat}
    (closes : memory[keyPosition memory position]? = some (ch 'e')) :
    DictEnds memory last position := by
  by_cases opens : memory[position]? = some (ch 'd')
  · rw [keyPosition_of_lead opens] at closes
    exact .inr (.inr (.inr (.inl ⟨opens, closes⟩)))
  · rw [keyPosition, if_neg opens] at closes
    exact .inl closes

theorem afterDict_of_closes {position : Nat}
    (closes : memory[keyPosition memory position]? = some (ch 'e')) :
    afterDict memory position = keyPosition memory position + 1 := by
  by_cases opens : memory[position]? = some (ch 'd')
  · rw [keyPosition_of_lead opens] at closes ⊢
    exact if_pos ⟨opens, closes⟩
  · rw [keyPosition, if_neg opens]
    exact if_neg fun both => opens both.1

theorem not_dictEnds_of_digit {last : Int} {position : Nat} {lead : UInt8}
    (held : memory[keyPosition memory position]? = some lead)
    (digit : isDigit lead = true) (room : (position + 1 : Int) < last) :
    ¬ DictEnds memory last position := by
  have noMark : ∀ mark, isDigit mark = false → lead ≠ mark := by
    intro mark notDigit same
    rw [same, notDigit] at digit
    cases digit
  by_cases opens : memory[position]? = some (ch 'd')
  · rw [keyPosition_of_lead opens] at held
    have notEnd := noMark (ch 'e') (by decide)
    simp only [DictEnds, opens, held, Option.some.injEq, notEnd, and_false,
      false_or, not_or]
    exact ⟨by decide, by decide, by decide, by omega⟩
  · rw [keyPosition, if_neg opens] at held
    simp only [DictEnds, held, Option.some.injEq, not_or]
    exact ⟨noMark _ (by decide), noMark _ (by decide),
      noMark _ (by decide), fun both => noMark _ (by decide) both.1,
      by omega⟩

/-- Behind a value the cursor is at the next key, or at the end. -/
theorem keyPosition_of_holds {position : Nat} {entries : List TreeEntry}
    (holds : HoldsAt memory position (entryBytes entries ++ [ch 'e'])) :
    keyPosition memory position = position := by
  have notOpen : memory[position]? ≠ some (ch 'd') := by
    cases entries with
    | nil =>
        have closes : memory[position]? = some (ch 'e') := holds.byte
        rw [closes]
        decide
    | cons entry rest =>
        rw [entryBytes, List.append_assoc, List.append_assoc] at holds
        rcases lead_of_encodeText holds with ⟨lead, held, digit⟩
        rw [held, Ne, Option.some.injEq]
        intro opens
        rw [opens] at digit
        exact absurd digit (by decide)
  exact if_neg notOpen

/-- What the walk of a dictionary finds at an entry. -/
structure EntryFound (memory : List UInt8) (start : Nat) (last : Int)
    (position : Nat) (key : List UInt8) (value : Tree)
    (rest : List TreeEntry) : Prop where
  more : ¬ DictEnds memory last position
  length : LengthAt memory (keyPosition memory position)
    (keyBody memory position key) key.length
  text : (memory.drop (keyBody memory position key)).take key.length = key
  inside : keyEnd memory position key < memory.length
  item : TreeAt memory (last + (position - start))
    (keyEnd memory position key) value
  behind : EntriesAt memory last
    (keyEnd memory position key + value.bytes.length) rest
  total :
    keyPosition memory (keyEnd memory position key + value.bytes.length) +
        (entryBytes rest).length =
      keyPosition memory position +
        (entryBytes ((key, value) :: rest)).length
  size : (entryBytes rest).length + 4 ≤
    (entryBytes ((key, value) :: rest)).length

theorem EntriesAt.found (small : memory.length ≤ 2 ^ 31)
    {start position : Nat} {last : Int} {key : List UInt8} {value : Tree}
    {rest : List TreeEntry} (order : start ≤ position)
    (stands : EntriesAt memory last position ((key, value) :: rest)) :
    EntryFound memory start last position key value rest := by
  have holds := stands.holds
  have fits := stands.fits
  have before := le_keyPosition memory position
  have keySize := encodeText_length key
  have valueSize := value.bytes_length
  have place : keyEnd memory position key =
      keyPosition memory position + (encodeText key).length :=
    encodeText_end key
  have total : (entryBytes ((key, value) :: rest)).length =
      (encodeText key).length + value.bytes.length +
        (entryBytes rest).length := by
    rw [entryBytes, List.length_append, List.length_append]
  rw [entryBytes, List.append_assoc, List.append_assoc] at holds
  have valueHolds := holds.back.front
  have restHolds := holds.back.back
  rw [← place] at valueHolds restHolds
  have inside := valueHolds.inside (by
    intro empty
    rw [empty] at valueSize
    simp at valueSize)
  have restPlace := keyPosition_of_holds restHolds
  rcases lead_of_encodeText holds with ⟨lead, held, digit⟩
  refine ⟨?_, holds.front.lengthAt small, holds.front.body, by omega,
    ⟨valueHolds, by omega⟩, ⟨?_, ?_⟩, by omega, by omega⟩
  · exact not_dictEnds_of_digit held digit (by omega)
  · rw [restPlace]
    exact restHolds
  · rw [restPlace]
    omega

/-- A tree that is skipped wherever it stands. -/
def TreeSkips (memory : List UInt8) (tree : Tree) : Prop :=
  ∀ last position, TreeAt memory last position tree →
    Skips memory (.value last position)
      (some (position + tree.bytes.length))

theorem EntryFound.before_value {start position : Nat} {last : Int}
    {key : List UInt8} {value : Tree} {rest : List TreeEntry}
    (found : EntryFound memory start last position key value rest) :
    position + 2 ≤ keyEnd memory position key := by
  have before := le_keyPosition memory position
  have forward := found.length.position_lt_body
  rw [keyEnd]
  omega

/-- A round of the walk over a dictionary, with the reader it goes on
with. -/
theorem EntryFound.step (small : memory.length ≤ 2 ^ 31)
    {start position depth : Nat} {last : Int} {key : List UInt8}
    {value : Tree} {rest : List TreeEntry}
    (found : EntryFound memory start last position key value rest)
    (range : InRange start last position) (skips : TreeSkips memory value)
    (deep : 2 * (memory.length - position) ≤ depth) :
    bencodeDictGetNext memory (iterateToNextStringPos memory depth)
        (readerAt start last position) =
      .ok (some
        ⟨readerAt start last
            (keyEnd memory position key + value.bytes.length),
          readerAt (keyEnd memory position key)
            (last + (position - start)) (keyEnd memory position key),
          some (keyBody memory position key), key.length⟩) :=
  dictStep_of_skips small range (range.room_of_more found.more)
    found.length found.inside deep (skips _ _ found.item)

theorem skipDict_entries (small : memory.length ≤ 2 ^ 31)
    {entries : List TreeEntry}
    (values : ∀ entry ∈ entries, TreeSkips memory entry.2)
    {start position depth fuel : Nat} {last : Int}
    (range : InRange start last position)
    (stands : EntriesAt memory last position entries)
    (deep : 2 * (memory.length - position) ≤ depth)
    (enough : (entryBytes entries).length < fuel) :
    ∃ stop,
      skipDict memory (iterateToNextStringPos memory depth) fuel
        (readerAt start last position) =
          .ok (some (readerAt start last stop)) ∧
      memory[keyPosition memory stop]? = some (ch 'e') ∧
      keyPosition memory stop =
        keyPosition memory position + (entryBytes entries).length := by
  induction entries generalizing position fuel with
  | nil =>
      have closes := stands.closes
      rcases Nat.exists_eq_add_one_of_ne_zero (Nat.ne_zero_of_lt enough)
        with ⟨fuel, rfl⟩
      refine ⟨position, ?_, closes, rfl⟩
      rw [skipDict_round _ _ (lt_length_of_byte closes),
        if_pos (dictEnds_of_closes closes)]
  | cons entry rest inductionHypothesis =>
      rcases entry with ⟨key, value⟩
      rw [List.forall_mem_cons] at values
      have order := range.order
      have found := stands.found small order
      have keyInside := lt_length_of_byte found.length.colon
      have forward := found.before_value
      have size := found.size
      have nextRange : InRange start last
          (keyEnd memory position key + value.bytes.length) :=
        ⟨by omega, range.window⟩
      rcases Nat.exists_eq_add_one_of_ne_zero (Nat.ne_zero_of_lt enough)
        with ⟨fuel, rfl⟩
      rcases inductionHypothesis values.2 nextRange found.behind
          (by omega) (by omega : (entryBytes rest).length < fuel) with
        ⟨stop, walked, closes, place⟩
      refine ⟨stop, ?_, closes, place.trans found.total⟩
      rw [skipDict_round _ _ (by omega), if_neg found.more,
        found.step small range values.1 deep]
      exact walked

/-- No value begins with the end of a list. -/
theorem lead_of_tree {position : Nat} (tree : Tree) {rest : List UInt8}
    (holds : HoldsAt memory position (tree.bytes ++ rest)) :
    memory[position]? ≠ some (ch 'e') := by
  cases tree with
  | integer value =>
      rw [Tree.bytes] at holds
      rw [holds.front.integerAt.opens]
      decide
  | text bytes =>
      rw [Tree.bytes] at holds
      rcases lead_of_encodeText holds with ⟨lead, held, digit⟩
      rw [held, Ne, Option.some.injEq]
      intro closes
      rw [closes] at digit
      exact absurd digit (by decide)
  | list items =>
      rw [Tree.bytes] at holds
      have opens : memory[position]? = some (ch 'l') := holds.byte
      rw [opens]
      decide
  | dict entries =>
      rw [Tree.bytes] at holds
      have opens : memory[position]? = some (ch 'd') := holds.byte
      rw [opens]
      decide

/-- Behind its own mark a list takes every byte as it comes. -/
theorem itemPosition_of_lt {start position : Nat}
    (behind : start < position) :
    itemPosition memory start position = position :=
  if_neg fun both => Nat.ne_of_gt behind both.2

/-- What the walk of a list finds at an item. -/
structure ItemFound (memory : List UInt8) (start : Nat) (last : Int)
    (position : Nat) (item : Tree) (rest : List Tree) : Prop where
  opens : ItemOpens memory start position
  element : TreeAt memory (last + (position - start))
    (itemPosition memory start position) item
  behind : ItemsAt memory last start
    (itemPosition memory start position + item.bytes.length) rest
  total :
    itemPosition memory start
        (itemPosition memory start position + item.bytes.length) +
        (itemBytes rest).length =
      itemPosition memory start position +
        (itemBytes (item :: rest)).length
  size : (itemBytes rest).length + 2 ≤ (itemBytes (item :: rest)).length

theorem ItemsAt.found {start position : Nat} {last : Int} {item : Tree}
    {rest : List Tree} (order : start ≤ position)
    (lead : memory[start]? = some (ch 'l'))
    (stands : ItemsAt memory last start position (item :: rest)) :
    ItemFound memory start last position item rest := by
  have holds := stands.holds
  have fits := stands.fits
  have before := le_itemPosition memory start position
  have behind := lt_itemPosition lead order
  have itemSize := item.bytes_length
  have total : (itemBytes (item :: rest)).length =
      item.bytes.length + (itemBytes rest).length := by
    rw [itemBytes, List.length_append]
  have next : itemPosition memory start
      (itemPosition memory start position + item.bytes.length) =
        itemPosition memory start position + item.bytes.length :=
    itemPosition_of_lt (by omega)
  rw [itemBytes, List.append_assoc] at holds
  have element := lead_of_tree item holds
  have inside := holds.front.inside (by
    intro empty
    rw [empty] at itemSize
    simp at itemSize)
  have more : memory[position]? ≠ some (ch 'e') := by
    by_cases opens : memory[position]? = some (ch 'l') ∧ position = start
    · rw [opens.1]
      decide
    · rw [itemPosition, if_neg opens] at element
      exact element
  refine ⟨⟨more, element, by omega⟩, ⟨holds.front, by omega⟩,
    ⟨?_, by omega⟩, by omega, by omega⟩
  rw [next]
  exact holds.back

theorem ItemFound.step (small : memory.length ≤ 2 ^ 31)
    {start position depth : Nat} {last : Int} {item : Tree}
    {rest : List Tree}
    (found : ItemFound memory start last position item rest)
    (range : InRange start last position) (room : (start : Int) < last)
    (lead : memory[start]? = some (ch 'l')) (skips : TreeSkips memory item)
    (deep : 2 * (memory.length - start) ≤ depth) :
    bencodeListGetNext memory (iterateToNextStringPos memory depth)
        (readerAt start last position) =
      .ok (.found
        (readerAt start last
          (itemPosition memory start position + item.bytes.length))
        (readerAt (itemPosition memory start position)
          (last + (position - start))
          (itemPosition memory start position))) :=
  listStep_of_skips small range room found.opens lead deep
    (skips _ _ found.element)

/-- The end of a list is reached at its mark, or in front of it when the
list is empty. -/
theorem ItemsAt.ended {start position : Nat} {last : Int}
    (stands : ItemsAt memory last start position []) :
    (memory[position]? = some (ch 'l') ∧ position = start ∧
        memory[position + 1]? = some (ch 'e') ∧
        itemPosition memory start position = position + 1) ∨
      (¬ (memory[position]? = some (ch 'l') ∧ position = start ∧
          memory[position + 1]? = some (ch 'e')) ∧
        memory[position]? = some (ch 'e') ∧
        itemPosition memory start position = position) := by
  have closes :
      memory[itemPosition memory start position]? = some (ch 'e') :=
    stands.holds.byte
  by_cases opens : memory[position]? = some (ch 'l') ∧ position = start
  · have place := itemPosition_of_lead opens
    rw [place] at closes
    exact .inl ⟨opens.1, opens.2, closes, place⟩
  · have place : itemPosition memory start position = position :=
      if_neg opens
    rw [place] at closes
    exact .inr ⟨fun both => opens ⟨both.1, both.2.1⟩, closes, place⟩

theorem skipList_items (small : memory.length ≤ 2 ^ 31)
    {items : List Tree}
    (elements : ∀ item ∈ items, TreeSkips memory item)
    {start position depth fuel : Nat} {last : Int}
    (range : InRange start last position) (room : (start : Int) < last)
    (lead : memory[start]? = some (ch 'l'))
    (stands : ItemsAt memory last start position items)
    (deep : 2 * (memory.length - start) ≤ depth)
    (enough : (itemBytes items).length < fuel) :
    skipList memory (iterateToNextStringPos memory depth) fuel
        (readerAt start last position) =
      .ok (some (readerAt start last
        (itemPosition memory start position +
          (itemBytes items).length))) := by
  induction items generalizing position fuel with
  | nil =>
      have inside := lt_length_of_byte stands.holds.byte
      rcases Nat.exists_eq_add_one_of_ne_zero (Nat.ne_zero_of_lt enough)
        with ⟨fuel, rfl⟩
      rw [skipList_round _ _ inside]
      rcases stands.ended with ⟨opens, same, closes, place⟩ |
        ⟨nonempty, closes, place⟩
      · rw [if_pos ⟨opens, same, closes⟩, place]
        rfl
      · rw [if_neg nonempty, if_pos closes, place]
        rfl
  | cons item rest inductionHypothesis =>
      rw [List.forall_mem_cons] at elements
      have order := range.order
      have found := stands.found order lead
      have before := le_itemPosition memory start position
      have size := found.size
      have nextRange : InRange start last
          (itemPosition memory start position + item.bytes.length) :=
        ⟨by omega, range.window⟩
      rcases Nat.exists_eq_add_one_of_ne_zero (Nat.ne_zero_of_lt enough)
        with ⟨fuel, rfl⟩
      have walked := inductionHypothesis elements.2 nextRange found.behind
        (by omega : (itemBytes rest).length < fuel)
      rw [found.total] at walked
      rw [skipList_round _ _ found.opens.inside,
        if_neg found.opens.not_empty, if_neg found.opens.more,
        found.step small range room lead elements.1 deep]
      exact walked

/-- A list in the block, from its mark on. -/
structure ListAt (memory : List UInt8) (last : Int) (position : Nat)
    (items : List Tree) : Prop where
  opens : memory[position]? = some (ch 'l')
  room : (position : Int) < last
  stands : ItemsAt memory last position position items
  behind :
    itemPosition memory position position + (itemBytes items).length + 1 =
      position + (Tree.list items).bytes.length
  inside : (itemBytes items).length + position < memory.length

structure DictAt (memory : List UInt8) (last : Int) (position : Nat)
    (entries : List TreeEntry) : Prop where
  opens : memory[position]? = some (ch 'd')
  stands : EntriesAt memory last position entries
  behind :
    keyPosition memory position + (entryBytes entries).length + 1 =
      position + (Tree.dict entries).bytes.length
  inside : (entryBytes entries).length + position < memory.length

theorem TreeAt.listAt {last : Int} {position : Nat} {items : List Tree}
    (stands : TreeAt memory last position (.list items)) :
    ListAt memory last position items := by
  have holds := stands.holds
  have fits := stands.fits
  have inside := holds.inside (by simp [Tree.bytes])
  have size : (Tree.list items).bytes.length =
      (itemBytes items).length + 2 := by
    simp [Tree.bytes]
  rw [Tree.bytes] at holds
  have opens : memory[position]? = some (ch 'l') := holds.byte
  have place := itemPosition_of_lead ⟨opens, @rfl _ position⟩
  refine ⟨opens, by omega, ⟨?_, by omega⟩, by omega, by omega⟩
  rw [place]
  exact holds.next

theorem TreeAt.dictAt {last : Int} {position : Nat}
    {entries : List TreeEntry}
    (stands : TreeAt memory last position (.dict entries)) :
    DictAt memory last position entries := by
  have holds := stands.holds
  have fits := stands.fits
  have inside := holds.inside (by simp [Tree.bytes])
  have size : (Tree.dict entries).bytes.length =
      (entryBytes entries).length + 2 := by
    simp [Tree.bytes]
  rw [Tree.bytes] at holds
  have opens : memory[position]? = some (ch 'd') := holds.byte
  have place := keyPosition_of_lead opens
  refine ⟨opens, ⟨?_, by omega⟩, by omega, by omega⟩
  rw [place]
  exact holds.next

theorem tree_skips (small : memory.length ≤ 2 ^ 31) (tree : Tree) :
    TreeSkips memory tree := by
  induction tree using Tree.induct with
  | integer value =>
      intro last position stands
      have holds := stands.holds
      rw [Tree.bytes] at holds ⊢
      rw [← holds.integerAt.behind]
      exact skips_integer holds.integerAt.opens holds.integerAt.digits
        holds.integerAt.closes
  | text bytes =>
      intro last position stands
      have holds := stands.holds
      have fits := stands.fits
      rw [Tree.bytes] at holds fits ⊢
      have size := encodeText_length bytes
      have place := @encodeText_end position bytes
      have skips := @skips_text _ last _ _ _ (holds.lengthAt small)
        (by omega)
      rw [if_pos (by omega), place] at skips
      exact skips
  | list items elements =>
      intro last position stands depth enough window
      have found := stands.listAt
      have opens := found.opens
      have inside := found.inside
      have walked := skipList_items small elements
        ⟨Nat.le_refl _, window⟩ found.room opens found.stands enough
        (by omega : (itemBytes items).length < depth)
      rw [skipItem_eq _ _ (run_inside opens (by decide)),
        if_neg (by rw [opens]; decide), if_pos opens, walked, ok_bind,
        ← found.behind]
      rfl
  | dict entries values =>
      intro last position stands depth enough window
      have found := stands.dictAt
      have opens := found.opens
      have inside := found.inside
      rcases skipDict_entries small values ⟨Nat.le_refl _, window⟩
          found.stands enough (by omega : _ < depth) with
        ⟨stop, walked, closes, ended⟩
      rw [skipItem_eq _ _ (run_inside opens (by decide)), if_pos opens,
        walked, ok_bind]
      change pastDict memory _ = _
      rw [pastDict_eq (lt_length_of_byte closes),
        afterDict_of_closes closes, ended, found.behind]

end Skipping

end UvgTorrent
