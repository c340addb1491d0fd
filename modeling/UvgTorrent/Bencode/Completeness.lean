import UvgTorrent.Bencode.Convert
import UvgTorrent.Bencode.Soundness

/-!
# What the grammar reads is skipped and converted

Every derivation is followed by a skip with the same result, and by a
conversion that answers, once the depth is twice the number of bytes left.
The conversion walks a value that has been skipped before, with the same
windows, so nothing is left for it to fail on but the local copies.
-/

namespace UvgTorrent

open CProgram CText CArray MachineInt

section Skipping

variable {memory : List UInt8}

/-- The answers of the two loops that stand for a result of the grammar. -/
def DictWalked (memory : List UInt8) (start : Nat) (last : Int)
    (final : Option Bencode) (result : Option Nat) : Prop :=
  (final = none ∧ result = none) ∨
    ∃ stop, final = some (readerAt start last stop) ∧
      stop < memory.length ∧ result = some (afterDict memory stop)

def ListWalked (start : Nat) (last : Int)
    (final : Option Bencode) (result : Option Nat) : Prop :=
  (final = none ∧ result = none) ∨
    ∃ stop, final = some (readerAt start last stop) ∧
      result = some (stop + 1)

/-- A skip follows the task, whatever the depth beyond what it needs. -/
def Skips (memory : List UInt8) : Task → Option Nat → Prop
  | .value last position, result =>
      ∀ depth, 2 * (memory.length - position) ≤ depth →
        last - position < 2 ^ 31 →
        skipItem memory (iterateToNextStringPos memory depth) depth
          (readerAt position last position) = .ok result
  | .entries start last position, result =>
      ∀ depth fuel, 2 * (memory.length - position) ≤ depth →
        2 * (memory.length - position) ≤ fuel →
        InRange start last position →
        ∃ final,
          skipDict memory (iterateToNextStringPos memory depth) fuel
            (readerAt start last position) = .ok final ∧
          DictWalked memory start last final result
  | .items start last position, result =>
      ∀ depth fuel, 2 * (memory.length - start) ≤ depth →
        2 * (memory.length - position) ≤ fuel →
        InRange start last position →
        memory[start]? = some (ch 'l') →
        ∃ final,
          skipList memory (iterateToNextStringPos memory depth) fuel
            (readerAt start last position) = .ok final ∧
          ListWalked start last final result

theorem iterate_of_skips (small : memory.length ≤ 2 ^ 31)
    {start position value depth : Nat} {last : Int} {result : Option Nat}
    (range : InRange start last position) (room : (start : Int) < last)
    (forward : position ≤ value) (inside : value < memory.length)
    (enough : 2 * (memory.length - value) < depth)
    (skips :
      Skips memory (.value (last + (position - start)) value) result) :
    iterateToNextStringPos memory depth (readerAt start last position)
      (some value) = .ok result := by
  have order := range.order
  have window := range.window
  obtain ⟨depth, rfl⟩ := Nat.exists_eq_add_one_of_ne_zero
    (Nat.ne_zero_of_lt enough)
  rw [iterateToNextStringPos,
    carryLength_readerAt range room forward (by omega), ok_bind,
    bencodeInit_eq]
  exact skips depth (by omega) (by omega)

theorem lt_itemPosition {start position : Nat}
    (opens : memory[start]? = some (ch 'l')) (order : start ≤ position) :
    start < itemPosition memory start position := by
  unfold itemPosition
  split
  · omega
  · rename_i other
    rcases Nat.eq_or_lt_of_le order with same | before
    · subst same
      exact absurd ⟨opens, rfl⟩ other
    · exact before

theorem InRange.room_of_more {start position : Nat} {last : Int}
    (range : InRange start last position)
    (more : ¬ DictEnds memory last position) : (start : Int) < last := by
  have order := range.order
  by_contra closed
  exact more (dictEnds_of_le (by omega))

theorem TextOpens.not_mark {position : Nat} {mark : UInt8}
    (opens : TextOpens memory position) (notDigit : isDigit mark = false) :
    memory[position]? ≠ some mark :=
  fun held => opens.1 ((digitsAt_eq_nil_iff held).mpr notDigit)

theorem ItemOpens.not_empty {start position : Nat}
    (opens : ItemOpens memory start position) :
    ¬ (memory[position]? = some (ch 'l') ∧ position = start ∧
      memory[position + 1]? = some (ch 'e')) := by
  rintro ⟨lead, same, closes⟩
  apply opens.element
  unfold itemPosition
  rw [if_pos ⟨lead, same⟩]
  exact closes

/-- The step of a dictionary over an entry whose value can be skipped. -/
theorem dictStep_of_skips (small : memory.length ≤ 2 ^ 31)
    {start position body count depth : Nat} {last : Int}
    {result : Option Nat} (range : InRange start last position)
    (room : (start : Int) < last)
    (length : LengthAt memory (keyPosition memory position) body count)
    (inside : body + count < memory.length)
    (deep : 2 * (memory.length - position) ≤ depth)
    (skips : Skips memory
      (.value (last + (position - start)) (body + count)) result) :
    bencodeDictGetNext memory (iterateToNextStringPos memory depth)
        (readerAt start last position) =
      .ok (result.map fun next =>
        ⟨readerAt start last next,
          readerAt (body + count) (last + (position - start))
            (body + count),
          some body, count⟩) := by
  have before := le_keyPosition memory position
  have forward := length.position_lt_body
  rw [bencodeDictGetNext_of_lengthAt small _ range room length inside,
    iterate_of_skips small range room (by omega) inside (by omega) skips,
    ok_bind]

/-- The step of a list over an element that can be skipped. -/
theorem listStep_of_skips (small : memory.length ≤ 2 ^ 31)
    {start position depth : Nat} {last : Int} {result : Option Nat}
    (range : InRange start last position) (room : (start : Int) < last)
    (opens : ItemOpens memory start position)
    (lead : memory[start]? = some (ch 'l'))
    (deep : 2 * (memory.length - start) ≤ depth)
    (skips : Skips memory (.value (last + (position - start))
      (itemPosition memory start position)) result) :
    bencodeListGetNext memory (iterateToNextStringPos memory depth)
        (readerAt start last position) =
      .ok (itemStep start last
        (readerAt (itemPosition memory start position)
          (last + (position - start)) (itemPosition memory start position))
        result) := by
  have inside := opens.inside
  have before := le_itemPosition memory start position
  have behind := lt_itemPosition lead range.order
  have skipped := iterate_of_skips small range room before inside
    (by omega :
      2 * (memory.length - itemPosition memory start position) < depth) skips
  rw [bencodeListGetNext_eq _ opens,
    carryLength_readerAt range room before (by omega), ok_bind, skipped,
    ok_bind, bencodeInit_eq]

/-- A byte that is no digit ends the run of digits at its place. -/
theorem run_inside {position : Nat} {mark : UInt8}
    (held : memory[position]? = some mark)
    (notDigit : isDigit mark = false) :
    position + (digitsAt memory position).length < memory.length := by
  rw [(digitsAt_eq_nil_iff held).mpr notDigit]
  exact lt_length_of_byte held

theorem skips_text {last : Int} {position body count : Nat}
    (length : LengthAt memory position body count)
    (room : position < last) :
    Skips memory (.value last position)
      (if (body + count : Int) ≤ last then some (body + count)
        else none) := by
  intro depth enough window
  have isText : TextOpens memory position := ⟨length.digits, length.colon⟩
  have place : ((body : Int) + count).toNat = body + count := by omega
  rw [skipItem_eq _ _ (lt_length_of_byte length.colon),
    if_neg (isText.not_mark (by decide)),
    if_neg (isText.not_mark (by decide)), if_pos isText,
    bencodeStringValue_eq length room, ok_bind]
  by_cases fits : (body + count : Int) ≤ last
  · simp [fits, place]
  · simp [fits]

theorem skips_integer {last : Int} {position : Nat}
    (opens : memory[position]? = some (ch 'i'))
    (digits : digitsAt memory (intDigits memory position) ≠ [])
    (closes :
      memory[intDigits memory position +
        (digitsAt memory (intDigits memory position)).length]? =
          some (ch 'e')) :
    Skips memory (.value last position)
      (some (intDigits memory position +
        (digitsAt memory (intDigits memory position)).length + 1)) := by
  intro depth enough window
  rw [skipItem_eq _ _ (run_inside opens (by decide)),
    if_neg (by rw [opens]; decide), if_neg (by rw [opens]; decide),
    if_neg (fun isText => isText.not_mark (by decide) opens),
    if_pos opens, pastInt_eq (lt_length_of_byte closes), if_neg digits,
    if_pos closes]

theorem reads_skips (terminated : Terminated memory)
    (small : memory.length ≤ 2 ^ 31) {task : Task} {result : Option Nat}
    (reads : Reads memory task result) :
    Skips memory task result := by
  induction reads with
  | @dict last position result opens entries inductionHypothesis =>
      intro depth enough window
      have inside := lt_length_of_byte opens
      obtain ⟨final, walked, outcome⟩ := inductionHypothesis depth depth
        enough enough ⟨Nat.le_refl _, window⟩
      rw [skipItem_eq _ _ (terminated.digits_lt inside), if_pos opens,
        walked, ok_bind]
      rcases outcome with ⟨rfl, rfl⟩ | ⟨stop, rfl, stopInside, rfl⟩
      · rfl
      · exact pastDict_eq (terminated.key_lt stopInside)
  | @list last position result opens items inductionHypothesis =>
      intro depth enough window
      have inside := lt_length_of_byte opens
      have notDict : memory[position]? ≠ some (ch 'd') := by
        rw [opens]
        decide
      obtain ⟨final, walked, outcome⟩ := inductionHypothesis depth depth
        enough enough ⟨Nat.le_refl _, window⟩ opens
      rw [skipItem_eq _ _ (terminated.digits_lt inside), if_neg notDict,
        if_pos opens, walked, ok_bind]
      rcases outcome with ⟨rfl, rfl⟩ | ⟨stop, rfl, rfl⟩
      · rfl
      · rfl
  | text length room =>
      exact skips_text length room
  | integer opens digits closes =>
      exact skips_integer opens digits closes
  | @bareInteger last position opens digits =>
      intro depth enough window
      rw [skipItem_eq _ _ (run_inside opens (by decide)),
        if_neg (by rw [opens]; decide), if_neg (by rw [opens]; decide),
        if_neg (fun isText => isText.not_mark (by decide) opens),
        if_pos opens, pastInt_eq (terminated.int_lt opens), if_pos digits]
  | unknown unknown =>
      intro depth enough window
      obtain ⟨inside, notDict, notList, notInt, notText⟩ := unknown
      rw [skipItem_eq _ _ (terminated.digits_lt inside), if_neg notDict,
        if_neg notList, if_neg notText, if_neg notInt]
  | @dictEnd start last position inside ends =>
      intro depth fuel _ enough range
      obtain ⟨fuel, rfl⟩ := Nat.exists_eq_add_one_of_ne_zero
        (by omega : fuel ≠ 0)
      refine ⟨some (readerAt start last position), ?_, ?_⟩
      · rw [skipDict_round _ _ (terminated.key_lt inside), if_pos ends]
      · exact .inr ⟨position, rfl, inside, rfl⟩
  | @entry start last position value next result more key read rest
      valueSkips restSkips =>
      intro depth fuel deep enough range
      have forward := key.position_lt
      have progress := read.forward next rfl
      have nextInside := rest.inside
      have order := range.order
      simp only [Task.position] at progress nextInside
      obtain ⟨fuel, rfl⟩ := Nat.exists_eq_add_one_of_ne_zero
        (by omega : fuel ≠ 0)
      obtain ⟨body, count, length, rfl⟩ := key.key
      have step := dictStep_of_skips small range (range.room_of_more more)
        length key.inside deep valueSkips
      obtain ⟨final, walked, outcome⟩ := restSkips depth fuel (by omega)
        (by omega) ⟨by omega, range.window⟩
      refine ⟨final, ?_, outcome⟩
      rw [skipDict_round _ _ (terminated.key_lt (by omega)), if_neg more, step]
      exact walked
  | @entryFails start last position value more key failed valueSkips =>
      intro depth fuel deep enough range
      have forward := key.position_lt
      have valueInside := key.inside
      obtain ⟨fuel, rfl⟩ := Nat.exists_eq_add_one_of_ne_zero
        (by omega : fuel ≠ 0)
      obtain ⟨body, count, length, rfl⟩ := key.key
      have step := dictStep_of_skips small range (range.room_of_more more)
        length key.inside deep valueSkips
      refine ⟨none, ?_, .inl ⟨rfl, rfl⟩⟩
      rw [skipDict_round _ _ (terminated.key_lt (by omega)), if_neg more, step]
      rfl
  | @emptyList start last opens closes =>
      intro depth fuel deep enough range _
      have inside := lt_length_of_byte opens
      obtain ⟨fuel, rfl⟩ := Nat.exists_eq_add_one_of_ne_zero
        (by omega : fuel ≠ 0)
      refine ⟨some (readerAt start last (start + 1)), ?_, ?_⟩
      · rw [skipList_round _ _ (terminated.item_lt inside),
          if_pos ⟨opens, rfl, closes⟩]
      · exact .inr ⟨start + 1, rfl, rfl⟩
  | @listEnd start last position closes =>
      intro depth fuel deep enough range _
      have inside := lt_length_of_byte closes
      obtain ⟨fuel, rfl⟩ := Nat.exists_eq_add_one_of_ne_zero
        (by omega : fuel ≠ 0)
      refine ⟨some (readerAt start last position), ?_, ?_⟩
      · rw [skipList_round _ _ (terminated.item_lt inside),
          if_neg (by rintro ⟨opens, _⟩; rw [opens] at closes; cases closes),
          if_pos closes]
      · exact .inr ⟨position, rfl, rfl⟩
  | @item start last position next result more element room read rest
      valueSkips restSkips =>
      intro depth fuel deep enough range opens
      have itemInside := read.inside
      have before := le_itemPosition memory start position
      have progress := read.forward next rfl
      have nextInside := rest.inside
      have order := range.order
      simp only [Task.position] at itemInside progress nextInside
      obtain ⟨fuel, rfl⟩ := Nat.exists_eq_add_one_of_ne_zero
        (by omega : fuel ≠ 0)
      have itemOpens : ItemOpens memory start position :=
        ⟨more, element, itemInside⟩
      have step := listStep_of_skips small range room itemOpens opens deep
        valueSkips
      obtain ⟨final, walked, outcome⟩ := restSkips depth fuel deep
        (by omega) ⟨by omega, range.window⟩ opens
      refine ⟨final, ?_, outcome⟩
      rw [skipList_round _ _ (terminated.item_lt (by omega)),
        if_neg itemOpens.not_empty, if_neg more, step]
      exact walked
  | @itemFails start last position more element room failed valueSkips =>
      intro depth fuel deep enough range opens
      have itemInside := failed.inside
      have before := le_itemPosition memory start position
      simp only [Task.position] at itemInside
      obtain ⟨fuel, rfl⟩ := Nat.exists_eq_add_one_of_ne_zero
        (by omega : fuel ≠ 0)
      have itemOpens : ItemOpens memory start position :=
        ⟨more, element, itemInside⟩
      have step := listStep_of_skips small range room itemOpens opens deep
        valueSkips
      refine ⟨none, ?_, .inl ⟨rfl, rfl⟩⟩
      rw [skipList_round _ _ (terminated.item_lt (by omega)),
        if_neg itemOpens.not_empty, if_neg more, step]
      rfl

end Skipping

end UvgTorrent
