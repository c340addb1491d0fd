import UvgTorrent.Bencode.Survival

/-!
# The validator

`bencode_validate` walks a buffer with the reader that the conversion uses,
and answers 0 or -1.  It reads on under the same grammar, so it answers
exactly where the grammar reads the buffer, and fails an assertion wherever
the conversion of a dictionary does.
-/

namespace UvgTorrent

open CProgram CText CArray MachineInt

section Validator

variable (memory : List UInt8)

/-- The loop over a dictionary. -/
def validateDict (iterate : Iterate) (validate : Bencode → Exec Int) :
    Nat → Bencode → Exec Int
  | 0, _ => .error .unfinished
  | fuel + 1, ben => do
      if ← bencodeDictHasNext memory ben then
        match ← bencodeDictGetNext memory iterate ben with
        | none => pure (-1)
        | some next =>
            let ret ← validate next.item
            if ret ≠ 0 then
              pure ret
            else
              validateDict iterate validate fuel next.be
      else
        pure 0

/-- The loop over a list.  A `get_next` that ends the list leaves `benl` as
it was declared. -/
def validateList (iterate : Iterate) (validate : Bencode → Exec Int) :
    Nat → Bencode → Exec Int
  | 0, _ => .error .unfinished
  | fuel + 1, ben => do
      let (more, ben) ← bencodeListHasNext memory ben
      if more then
        match ← bencodeListGetNext memory iterate ben with
        | .failed _ _ => pure (-1)
        | .ended _ => .error .uninitialised
        | .found next benl =>
            let ret ← validate benl
            if ret ≠ 0 then
              pure ret
            else
              validateList iterate validate fuel next
      else
        pure 0

/-- The branches of `__validate`. -/
def validateItem (iterate : Iterate) (validate : Bencode → Exec Int)
    (fuel : Nat) (ben : Bencode) : Exec Int := do
  if ← bencodeIsDict memory ben then
    validateDict memory iterate validate fuel ben
  else if ← bencodeIsList memory ben then
    validateList memory iterate validate fuel ben
  else if ← bencodeIsString memory ben then
    let (str, _) ← bencodeStringValue memory ben
    pure (if str.isNone then -1 else 0)
  else if ← bencodeIsInt memory ben then
    let val ← bencodeIntValue memory ben
    pure (if val.isNone then -1 else 0)
  else
    pure (-1)

/-- `__validate`, with at most `fuel` nested calls and loop rounds. -/
def validate : Nat → Bencode → Exec Int
  | 0, _ => .error .unfinished
  | fuel + 1, ben =>
      validateItem memory (iterateToNextStringPos memory fuel)
        (validate fuel) fuel ben

end Validator

/-- `bencode_validate` on a buffer followed by a `NUL`; its length is passed
as an `int`. -/
def bencodeValidate (buf : List UInt8) (depth : Nat) : Exec Int :=
  if toInt32 buf.length = 0 then
    .ok 0
  else
    validate (buf ++ [0]) depth
      (bencodeInit (some 0) (toInt32 buf.length))

/-- What the validator makes of a result of the grammar. -/
def verdict (result : Option Nat) : Int :=
  if result.isSome then 0 else -1

@[simp]
theorem verdict_some (next : Nat) : verdict (some next) = 0 :=
  rfl

@[simp]
theorem verdict_none : verdict none = -1 :=
  rfl

section Validating

variable {memory : List UInt8}

/-- The branch that the validator takes is decided by the first byte. -/
theorem validateItem_eq (iterate : Iterate) (validate : Bencode → Exec Int)
    (fuel : Nat) {position : Nat} {last : Int}
    (runInside :
      position + (digitsAt memory position).length < memory.length) :
    validateItem memory iterate validate fuel
        (readerAt position last position) =
      if memory[position]? = some (ch 'd') then
        validateDict memory iterate validate fuel
          (readerAt position last position)
      else if memory[position]? = some (ch 'l') then
        validateList memory iterate validate fuel
          (readerAt position last position)
      else if TextOpens memory position then
        bencodeStringValue memory (readerAt position last position) >>=
          fun read => .ok (if read.1.isNone then -1 else 0)
      else if memory[position]? = some (ch 'i') then
        bencodeIntValue memory (readerAt position last position) >>=
          fun val => .ok (if val.isNone then -1 else 0)
      else
        .ok (-1) := by
  have inside : position < memory.length := by omega
  rw [validateItem, bencodeIsDict, startsWith_eq inside, ok_bind,
    bencodeIsList, startsWith_eq inside, ok_bind,
    bencodeIsString_eq runInside, ok_bind,
    bencodeIsInt, startsWith_eq inside, ok_bind]
  simp only [decide_eq_true_eq]
  rfl

theorem validateDict_round (iterate : Iterate)
    (validate : Bencode → Exec Int) (fuel : Nat)
    {start position : Nat} {last : Int}
    (keyInside : keyPosition memory position < memory.length) :
    validateDict memory iterate validate (fuel + 1)
        (readerAt start last position) =
      if DictEnds memory last position then
        .ok 0
      else
        bencodeDictGetNext memory iterate (readerAt start last position) >>=
          fun found =>
            match found with
            | none => .ok (-1)
            | some next =>
                validate next.item >>= fun ret =>
                  if ret ≠ 0 then .ok ret
                  else validateDict memory iterate validate fuel next.be := by
  rw [validateDict, bencodeDictHasNext_bind keyInside]
  rfl

theorem validateList_round (iterate : Iterate)
    (validate : Bencode → Exec Int) (fuel : Nat)
    {start position : Nat} {last : Int}
    (itemInside : itemPosition memory start position < memory.length) :
    validateList memory iterate validate (fuel + 1)
        (readerAt start last position) =
      if memory[position]? = some (ch 'l') ∧ position = start ∧
          memory[position + 1]? = some (ch 'e') then
        .ok 0
      else if memory[position]? = some (ch 'e') then
        .ok 0
      else
        bencodeListGetNext memory iterate (readerAt start last position) >>=
          fun found =>
            match found with
            | .failed _ _ => .ok (-1)
            | .ended _ => .error .uninitialised
            | .found next benl =>
                validate benl >>= fun ret =>
                  if ret ≠ 0 then .ok ret
                  else validateList memory iterate validate fuel next := by
  rw [validateList, bencodeListHasNext_bind itemInside]
  rfl

/-- The validator gives the verdict on the result of a task. -/
def Validates (memory : List UInt8) : Task → Option Nat → Prop
  | .value last position, result =>
      ∀ depth, 2 * (memory.length - position) < depth →
        last - position < 2 ^ 31 →
        validate memory depth (readerAt position last position) =
          .ok (verdict result)
  | .entries start last position, result =>
      ∀ depth fuel, 2 * (memory.length - position) ≤ depth →
        2 * (memory.length - position) ≤ fuel →
        InRange start last position →
        validateDict memory (iterateToNextStringPos memory depth)
            (validate memory depth) fuel (readerAt start last position) =
          .ok (verdict result)
  | .items start last position, result =>
      ∀ depth fuel, 2 * (memory.length - start) ≤ depth →
        2 * (memory.length - position) ≤ fuel →
        InRange start last position →
        memory[start]? = some (ch 'l') →
        validateList memory (iterateToNextStringPos memory depth)
            (validate memory depth) fuel (readerAt start last position) =
          .ok (verdict result)

theorem validate_eq (terminated : Terminated memory) {depth position : Nat}
    {last : Int} (inside : position < memory.length)
    (enough : 2 * (memory.length - position) < depth) :
    ∃ less, depth = less + 1 ∧
      validate memory depth (readerAt position last position) =
        if memory[position]? = some (ch 'd') then
          validateDict memory (iterateToNextStringPos memory less)
            (validate memory less) less (readerAt position last position)
        else if memory[position]? = some (ch 'l') then
          validateList memory (iterateToNextStringPos memory less)
            (validate memory less) less (readerAt position last position)
        else if TextOpens memory position then
          bencodeStringValue memory (readerAt position last position) >>=
            fun read => .ok (if read.1.isNone then -1 else 0)
        else if memory[position]? = some (ch 'i') then
          bencodeIntValue memory (readerAt position last position) >>=
            fun val => .ok (if val.isNone then -1 else 0)
        else
          .ok (-1) := by
  obtain ⟨less, rfl⟩ := Nat.exists_eq_add_one_of_ne_zero
    (Nat.ne_zero_of_lt enough)
  refine ⟨less, rfl, ?_⟩
  rw [validate, validateItem_eq _ _ _ (terminated.digits_lt inside)]

theorem bencodeIntValue_bare (terminated : Terminated memory)
    {start position : Nat} {last : Int}
    (opens : memory[position]? = some (ch 'i'))
    (digits : digitsAt memory (intDigits memory position) = []) :
    bencodeIntValue memory (readerAt start last position) = .ok none := by
  have read := readStringInt_eq (terminated.int_lt opens)
  simp only [bencodeIntValue, readerAt, read, ok_bind, if_pos digits,
    pure_exec]

theorem reads_validates (terminated : Terminated memory)
    (small : memory.length ≤ 2 ^ 31) {task : Task} {result : Option Nat}
    (reads : Reads memory task result) :
    Validates memory task result := by
  induction reads with
  | @dict last position result opens entries inductionHypothesis =>
      intro depth deep window
      obtain ⟨less, rfl, branches⟩ :=
        validate_eq terminated (lt_length_of_byte opens) deep
      rw [branches, if_pos opens]
      exact inductionHypothesis less less (by omega) (by omega)
        ⟨Nat.le_refl _, window⟩
  | @list last position result opens items inductionHypothesis =>
      intro depth deep window
      obtain ⟨less, rfl, branches⟩ :=
        validate_eq terminated (lt_length_of_byte opens) deep
      rw [branches, if_neg (by rw [opens]; decide), if_pos opens]
      exact inductionHypothesis less less (by omega) (by omega)
        ⟨Nat.le_refl _, window⟩ opens
  | @text last position body count length room =>
      intro depth deep window
      have isText : TextOpens memory position :=
        ⟨length.digits, length.colon⟩
      have first := length.position_lt_body
      have second := length.body_le
      obtain ⟨less, rfl, branches⟩ := validate_eq terminated
        (by omega : position < memory.length) deep
      rw [branches, if_neg (isText.not_mark (by decide)),
        if_neg (isText.not_mark (by decide)), if_pos isText,
        bencodeStringValue_eq length room, ok_bind]
      by_cases fits : (body + count : Int) ≤ last
      · simp [fits]
      · simp [fits]
  | @integer last position opens digits closes =>
      intro depth deep window
      obtain ⟨less, rfl, branches⟩ :=
        validate_eq terminated (lt_length_of_byte opens) deep
      rw [branches, if_neg (by rw [opens]; decide),
        if_neg (by rw [opens]; decide),
        if_neg (fun isText => isText.not_mark (by decide) opens),
        if_pos opens, bencodeIntValue_eq position last digits closes]
      rfl
  | @bareInteger last position opens digits =>
      intro depth deep window
      obtain ⟨less, rfl, branches⟩ :=
        validate_eq terminated (lt_length_of_byte opens) deep
      rw [branches, if_neg (by rw [opens]; decide),
        if_neg (by rw [opens]; decide),
        if_neg (fun isText => isText.not_mark (by decide) opens),
        if_pos opens, bencodeIntValue_bare terminated opens digits]
      rfl
  | unknown unknown =>
      intro depth deep window
      obtain ⟨inside, notDict, notList, notInt, notText⟩ := unknown
      obtain ⟨less, rfl, branches⟩ := validate_eq terminated inside deep
      rw [branches, if_neg notDict, if_neg notList, if_neg notText,
        if_neg notInt, verdict_none]
  | @dictEnd start last position inside ends =>
      intro depth fuel _ enough _
      obtain ⟨fuel, rfl⟩ := Nat.exists_eq_add_one_of_ne_zero
        (by omega : fuel ≠ 0)
      rw [validateDict_round _ _ _ (terminated.key_lt inside), if_pos ends,
        verdict_some]
  | @entry start last position value next result more key read rest
      valueValidates restValidates =>
      intro depth fuel deep enough range
      have forward := key.position_lt
      have valueInside := key.inside
      have progress := read.forward next rfl
      have nextInside := rest.inside
      have order := range.order
      have window := range.window
      simp only [Task.position] at progress nextInside
      obtain ⟨fuel, rfl⟩ := Nat.exists_eq_add_one_of_ne_zero
        (by omega : fuel ≠ 0)
      obtain ⟨body, count, length, rfl⟩ := key.key
      have step := dictStep_of_skips small range (range.room_of_more more)
        length valueInside deep (reads_skips terminated small read)
      have valid := valueValidates depth (by omega) (by omega)
      rw [validateDict_round _ _ _ (terminated.key_lt (by omega)),
        if_neg more, step]
      simp only [ok_bind, Option.map_some, valid, verdict_some, ne_eq,
        not_true_eq_false, if_false]
      exact restValidates depth fuel (by omega) (by omega)
        ⟨by omega, window⟩
  | @entryFails start last position value more key failed _ =>
      intro depth fuel deep enough range
      have forward := key.position_lt
      have valueInside := key.inside
      obtain ⟨fuel, rfl⟩ := Nat.exists_eq_add_one_of_ne_zero
        (by omega : fuel ≠ 0)
      obtain ⟨body, count, length, rfl⟩ := key.key
      have step := dictStep_of_skips small range (range.room_of_more more)
        length valueInside deep (reads_skips terminated small failed)
      rw [validateDict_round _ _ _ (terminated.key_lt (by omega)),
        if_neg more, step]
      rfl
  | @emptyList start last opens closes =>
      intro depth fuel _ enough _ _
      have inside := lt_length_of_byte opens
      obtain ⟨fuel, rfl⟩ := Nat.exists_eq_add_one_of_ne_zero
        (by omega : fuel ≠ 0)
      rw [validateList_round _ _ _ (terminated.item_lt inside),
        if_pos ⟨opens, rfl, closes⟩, verdict_some]
  | @listEnd start last position closes =>
      intro depth fuel _ enough _ _
      have inside := lt_length_of_byte closes
      obtain ⟨fuel, rfl⟩ := Nat.exists_eq_add_one_of_ne_zero
        (by omega : fuel ≠ 0)
      rw [validateList_round _ _ _ (terminated.item_lt inside),
        if_neg (by rintro ⟨opens, _⟩; rw [opens] at closes; cases closes),
        if_pos closes, verdict_some]
  | @item start last position next result more element room read rest
      valueValidates restValidates =>
      intro depth fuel deep enough range opens
      have itemInside := read.inside
      have before := le_itemPosition memory start position
      have behind := lt_itemPosition opens range.order
      have progress := read.forward next rfl
      have nextInside := rest.inside
      have order := range.order
      have window := range.window
      simp only [Task.position] at itemInside progress nextInside
      obtain ⟨fuel, rfl⟩ := Nat.exists_eq_add_one_of_ne_zero
        (by omega : fuel ≠ 0)
      have itemOpens : ItemOpens memory start position :=
        ⟨more, element, itemInside⟩
      have step := listStep_of_skips small range room itemOpens opens deep
        (reads_skips terminated small read)
      have valid := valueValidates depth (by omega) (by omega)
      rw [validateList_round _ _ _ (terminated.item_lt (by omega)),
        if_neg itemOpens.not_empty, if_neg more, step]
      simp only [ok_bind, itemStep, valid, verdict_some, ne_eq,
        not_true_eq_false, if_false]
      exact restValidates depth fuel deep (by omega) ⟨by omega, window⟩
        opens
  | @itemFails start last position more element room failed _ =>
      intro depth fuel deep enough range opens
      have itemInside := failed.inside
      have before := le_itemPosition memory start position
      simp only [Task.position] at itemInside
      obtain ⟨fuel, rfl⟩ := Nat.exists_eq_add_one_of_ne_zero
        (by omega : fuel ≠ 0)
      have itemOpens : ItemOpens memory start position :=
        ⟨more, element, itemInside⟩
      have step := listStep_of_skips small range room itemOpens opens deep
        (reads_skips terminated small failed)
      rw [validateList_round _ _ _ (terminated.item_lt (by omega)),
        if_neg itemOpens.not_empty, if_neg more, step]
      rfl

/-- A validator answers only as the grammar does. -/
def ValidatesSound (memory : List UInt8)
    (validate : Bencode → Exec Int) : Prop :=
  ∀ (position : Nat) (last code : Int),
    position < memory.length → last - position < 2 ^ 31 →
      validate (readerAt position last position) = .ok code →
      ∃ result, Reads memory (.value last position) result ∧
        code = verdict result

/-- What a value amounts to does not depend on the derivation. -/
theorem Reads.value_unique (terminated : Terminated memory)
    (small : memory.length ≤ 2 ^ 31) {position : Nat} {last : Int}
    {first second : Option Nat} (window : last - position < 2 ^ 31)
    (reads : Reads memory (.value last position) first)
    (again : Reads memory (.value last position) second) :
    first = second := by
  have skipped := reads_skips terminated small reads _ (Nat.le_refl _) window
  have repeated := reads_skips terminated small again _ (Nat.le_refl _) window
  exact Except.ok.inj (skipped.symm.trans repeated)

/-- A value that was skipped is valid. -/
theorem ValidatesSound.of_skipped {validate : Bencode → Exec Int}
    (valid : ValidatesSound memory validate)
    (terminated : Terminated memory) (small : memory.length ≤ 2 ^ 31)
    {position next : Nat} {last code : Int}
    (window : last - position < 2 ^ 31)
    (read : Reads memory (.value last position) (some next))
    (ran : validate (readerAt position last position) = .ok code) :
    code = 0 := by
  obtain ⟨result, reads, rfl⟩ :=
    valid position last code read.inside window ran
  rw [read.value_unique terminated small window reads |>.symm, verdict_some]

/-- The reader of the value that an entry hands out. -/
theorem KeyAt.item (small : memory.length ≤ 2 ^ 31) {iterate : Iterate}
    {start position value : Nat} {last : Int} {next : DictItem}
    (key : KeyAt memory position value)
    (range : InRange start last position)
    (more : ¬ DictEnds memory last position)
    (ran : bencodeDictGetNext memory iterate (readerAt start last position) =
      .ok (some next)) :
    next.item = readerAt value (last + (position - start)) value := by
  obtain ⟨body, count, _, _, step⟩ :=
    bencodeDictGetNext_of_keyAt small iterate range more key
  rw [step, bind_eq_ok_iff] at ran
  obtain ⟨found, _, answer⟩ := ran
  cases found with
  | none => cases answer
  | some place =>
      cases answer
      rfl

theorem validateDict_reads (terminated : Terminated memory)
    (small : memory.length ≤ 2 ^ 31) {iterate : Iterate}
    (sound : SkipsSound memory iterate)
    (stays : StaysInside memory iterate)
    {validate : Bencode → Exec Int} (valid : ValidatesSound memory validate)
    (fuel : Nat) {start position : Nat} {last code : Int}
    (range : InRange start last position)
    (ran : validateDict memory iterate validate fuel
      (readerAt start last position) = .ok code) :
    ∃ result, Reads memory (.entries start last position) result ∧
      code = verdict result := by
  induction fuel generalizing position with
  | zero =>
      cases ran
  | succ fuel inductionHypothesis =>
      have inside : position < memory.length := by
        by_contra outside
        rw [validateDict, bencodeDictHasNext_of_le (Nat.not_lt.mp outside)]
          at ran
        cases ran
      rw [validateDict_round _ _ _ (terminated.key_lt inside)] at ran
      by_cases ends : DictEnds memory last position
      · rw [if_pos ends] at ran
        cases ran
        exact ⟨_, .dictEnd inside ends, rfl⟩
      · rw [if_neg ends, bind_eq_ok_iff] at ran
        obtain ⟨found, step, rest⟩ := ran
        obtain ⟨value, key, outcome⟩ :=
          entry_reads terminated small sound stays range inside ends step
        rcases outcome with ⟨rfl, failed⟩ | ⟨item, next, rfl, place, read⟩
        · cases rest
          exact ⟨none, .entryFails ends key failed, rfl⟩
        · have forward := read.forward next rfl
          have before := key.position_lt
          have order := range.order
          have window := range.window
          simp only [Task.position] at forward
          have nextRange : InRange start last next := ⟨by omega, window⟩
          simp only [key.item small range ends step, place, bind_eq_ok_iff]
            at rest
          obtain ⟨ret, checked, walked⟩ := rest
          have zero : ret = 0 :=
            valid.of_skipped terminated small (by omega) read checked
          rw [if_neg (not_not.mpr zero)] at walked
          obtain ⟨result, reads, same⟩ :=
            inductionHypothesis nextRange walked
          exact ⟨result, .entry ends key read reads, same⟩

theorem validateList_reads (terminated : Terminated memory)
    (small : memory.length ≤ 2 ^ 31) {iterate : Iterate}
    (sound : SkipsSound memory iterate)
    {validate : Bencode → Exec Int} (valid : ValidatesSound memory validate)
    (fuel : Nat) {start position : Nat} {last code : Int}
    (range : InRange start last position)
    (ran : validateList memory iterate validate fuel
      (readerAt start last position) = .ok code) :
    ∃ result, Reads memory (.items start last position) result ∧
      code = verdict result := by
  induction fuel generalizing position with
  | zero =>
      cases ran
  | succ fuel inductionHypothesis =>
      have inside : position < memory.length := by
        by_contra outside
        rw [validateList, bencodeListHasNext_of_le (Nat.not_lt.mp outside)]
          at ran
        cases ran
      rw [validateList_round _ _ _ (terminated.item_lt inside)] at ran
      by_cases empty : memory[position]? = some (ch 'l') ∧
          position = start ∧ memory[position + 1]? = some (ch 'e')
      · rw [if_pos empty] at ran
        cases ran
        obtain ⟨opens, rfl, closes⟩ := empty
        exact ⟨_, .emptyList opens closes, rfl⟩
      · rw [if_neg empty] at ran
        by_cases closes : memory[position]? = some (ch 'e')
        · rw [if_pos closes] at ran
          cases ran
          exact ⟨_, .listEnd closes, rfl⟩
        · rw [if_neg closes, bind_eq_ok_iff] at ran
          obtain ⟨found, step, rest⟩ := ran
          have opens := itemOpens_of_more terminated inside closes empty
          obtain ⟨room, outcome⟩ := item_reads small sound range opens step
          rcases outcome with ⟨rfl, failed⟩ | ⟨next, rfl, read⟩
          · cases rest
            exact ⟨none, .itemFails closes opens.element room failed, rfl⟩
          · have forward := read.forward next rfl
            have before := le_itemPosition memory start position
            have order := range.order
            have window := range.window
            simp only [Task.position] at forward
            have nextRange : InRange start last next := ⟨by omega, window⟩
            simp only [bind_eq_ok_iff] at rest
            obtain ⟨ret, checked, walked⟩ := rest
            have zero : ret = 0 :=
              valid.of_skipped terminated small (by omega) read checked
            rw [if_neg (not_not.mpr zero)] at walked
            obtain ⟨result, reads, same⟩ :=
              inductionHypothesis nextRange walked
            exact
              ⟨result, .item closes opens.element room read reads, same⟩

theorem validateItem_reads (terminated : Terminated memory)
    (small : memory.length ≤ 2 ^ 31) {iterate : Iterate}
    (sound : SkipsSound memory iterate)
    (stays : StaysInside memory iterate)
    {validate : Bencode → Exec Int} (valid : ValidatesSound memory validate)
    (fuel : Nat) : ValidatesSound memory
      (validateItem memory iterate validate fuel) := by
  intro position last code inside window ran
  have range : InRange position last position := ⟨Nat.le_refl _, window⟩
  rw [validateItem_eq _ _ _ (terminated.digits_lt inside)] at ran
  by_cases isDict : memory[position]? = some (ch 'd')
  · rw [if_pos isDict] at ran
    obtain ⟨result, reads, same⟩ := validateDict_reads terminated small
      sound stays valid fuel range ran
    exact ⟨result, .dict isDict reads, same⟩
  by_cases isList : memory[position]? = some (ch 'l')
  · rw [if_neg isDict, if_pos isList] at ran
    obtain ⟨result, reads, same⟩ := validateList_reads terminated small
      sound valid fuel range ran
    exact ⟨result, .list isList reads, same⟩
  by_cases isText : TextOpens memory position
  · rw [if_neg isDict, if_neg isList, if_pos isText, bind_eq_ok_iff] at ran
    obtain ⟨read, value, answer⟩ := ran
    obtain ⟨body, count, length, room⟩ :=
      lengthAt_of_bencodeStringValue terminated inside value
    rw [bencodeStringValue_eq length room] at value
    cases value
    cases answer
    refine ⟨_, .text length room, ?_⟩
    by_cases fits : (body + count : Int) ≤ last
    · simp [fits]
    · simp [fits]
  by_cases isInt : memory[position]? = some (ch 'i')
  · rw [if_neg isDict, if_neg isList, if_neg isText, if_pos isInt] at ran
    by_cases digits : digitsAt memory (intDigits memory position) = []
    · rw [bencodeIntValue_bare terminated isInt digits] at ran
      cases ran
      exact ⟨none, .bareInteger isInt digits, rfl⟩
    · obtain ⟨closing, held, peeked⟩ := peek_of_lt (terminated.int_lt isInt)
      have read := readStringInt_eq (terminated.int_lt isInt)
      simp only [bencodeIntValue, readerAt, read, ok_bind, if_neg digits,
        peeked] at ran
      by_cases closes : closing = ch 'e'
      · rw [if_pos closes] at ran
        cases ran
        exact ⟨_, .integer isInt digits (closes ▸ held), rfl⟩
      · rw [if_neg closes] at ran
        cases ran
  · rw [if_neg isDict, if_neg isList, if_neg isText, if_neg isInt] at ran
    cases ran
    exact ⟨none, .unknown ⟨inside, isDict, isList, isInt, isText⟩, rfl⟩

theorem validate_sound (terminated : Terminated memory)
    (small : memory.length ≤ 2 ^ 31) (depth : Nat) :
    ValidatesSound memory (validate memory depth) := by
  induction depth with
  | zero =>
      intro position last code _ _ ran
      cases ran
  | succ depth inductionHypothesis =>
      intro position last code inside window ran
      exact validateItem_reads terminated small
        (iterate_sound terminated small depth) (iterate_stays depth)
        inductionHypothesis depth position last code inside window ran

end Validating

section Verdicts

variable {buf : List UInt8}

theorem bencodeValidate_eq (nonempty : 1 ≤ buf.length)
    (size : buf.length < 2 ^ 31) (depth : Nat) :
    bencodeValidate buf depth =
      validate (buf ++ [0]) depth (readerAt 0 buf.length 0) := by
  have length : toInt32 buf.length = buf.length :=
    toInt32_of_range (by omega) (by omega)
  rw [bencodeValidate, length, if_neg (by omega)]
  simp [bencodeInit, readerAt]

/-- `bencode_validate` returns on a buffer exactly when the grammar reads the
value that the buffer begins with, and then tells whether it found an
end. -/
theorem bencodeValidate_returns_iff (nonempty : 1 ≤ buf.length)
    (size : buf.length < 2 ^ 31) (code : Int) :
    Returns (bencodeValidate buf) code ↔
      ∃ result, Reads (buf ++ [0]) (.value buf.length 0) result ∧
        code = verdict result := by
  have terminated : Terminated (buf ++ [0]) := ⟨buf, rfl⟩
  have small : (buf ++ [0]).length ≤ 2 ^ 31 := by
    rw [List.length_append, List.length_singleton]
    exact size
  constructor
  · rintro ⟨depth, ran⟩
    rw [bencodeValidate_eq nonempty size] at ran
    exact validate_sound terminated small depth 0 buf.length code
      (by simp) (by omega) ran
  · rintro ⟨result, reads, rfl⟩
    refine ⟨2 * (buf ++ [0]).length + 1, ?_⟩
    rw [bencodeValidate_eq nonempty size]
    exact reads_validates terminated small reads _ (by omega) (by omega)

theorem bencodeValidate_returns_iff_integer :
    Returns (bencodeValidate (text "i7e")) 0 ↔
      ∃ result, Reads (text "i7e" ++ [0])
        (.value (text "i7e").length 0) result ∧ 0 = verdict result :=
  bencodeValidate_returns_iff (by decide) (by decide) 0

/-- Asking first does not help: on a dictionary the validator stops wherever
the conversion stops, and returns wherever the conversion returns. -/
theorem bencodeValidate_returns_iff_survives
    (isDict : buf[0]? = some (ch 'd')) (size : buf.length < 2 ^ 31) :
    (∃ code, Returns (bencodeValidate buf) code) ↔ Survives buf := by
  have nonempty : 1 ≤ buf.length := lt_length_of_byte isDict
  have opens := (first_byte nonempty).trans isDict
  have notMark : ∀ mark, mark ≠ ch 'd' →
      (buf ++ [0])[0]? ≠ some mark := by
    intro mark different same
    rw [opens, Option.some.injEq] at same
    exact different same.symm
  rw [bencodeToHashmap_survives_iff nonempty size]
  constructor
  · rintro ⟨code, returned⟩
    obtain ⟨result, reads, -⟩ :=
      (bencodeValidate_returns_iff nonempty size code).mp returned
    cases reads with
    | dict _ entries => exact .inr ⟨result, entries⟩
    | list other _ => exact absurd other (notMark _ (by decide))
    | integer other _ _ => exact absurd other (notMark _ (by decide))
    | bareInteger other _ => exact absurd other (notMark _ (by decide))
    | unknown unknown => exact absurd opens unknown.2.1
    | text length _ =>
        have isText : TextOpens (buf ++ [0]) 0 :=
          ⟨length.digits, length.colon⟩
        exact absurd opens (isText.not_mark (by decide))
  · rintro (other | ⟨result, entries⟩)
    · exact absurd isDict other
    · exact ⟨verdict result,
        (bencodeValidate_returns_iff nonempty size _).mpr
          ⟨result, .dict opens entries, rfl⟩⟩

theorem bencodeValidate_returns_iff_survives_entries :
    (∃ code, Returns (bencodeValidate (text "d3:agei7e4:name2:xye"))
        code) ↔
      Survives (text "d3:agei7e4:name2:xye") :=
  bencodeValidate_returns_iff_survives (by decide) (by decide)

end Verdicts

end UvgTorrent
