import UvgTorrent.Bencode.Completeness

/-!
# Which buffers `bencodeToHashmap` survives

The conversion of a buffer answers exactly when the buffer is no dictionary
or the grammar reads its entries.
-/

namespace UvgTorrent

open CProgram CText CArray MachineInt

section Converting

variable {memory : List UInt8}

/-- A conversion answers.  A value is converted only after its skip has come
to a place inside the block. -/
def Converts (memory : List UInt8) : Task → Option Nat → Prop
  | .value last position, result =>
      ∀ next ∈ result, next < memory.length →
        ∀ depth fuel, 2 * (memory.length - position) < depth →
          2 * (memory.length - position) ≤ fuel →
          last - position < 2 ^ 31 →
          (∃ out,
            convertElement memory (bencodeToHashmap memory depth)
              (readerAt position last position) = .ok out) ∧
          ∃ out,
            convertValue memory (iterateToNextStringPos memory depth)
              (bencodeToHashmap memory depth) fuel
              (readerAt position last position) = .ok out
  | .entries start last position, _ =>
      ∀ depth fuel done, 2 * (memory.length - position) ≤ depth →
        2 * (memory.length - position) ≤ fuel →
        InRange start last position →
        ∃ out,
          convertDict memory (iterateToNextStringPos memory depth)
            (bencodeToHashmap memory depth) fuel
            (readerAt start last position) done = .ok out
  | .items start last position, result =>
      ∀ next ∈ result, ∀ depth fuel done,
        2 * (memory.length - start) ≤ depth →
        2 * (memory.length - position) ≤ fuel →
        InRange start last position →
        memory[start]? = some (ch 'l') →
        ∃ out,
          convertList memory (iterateToNextStringPos memory depth)
            (bencodeToHashmap memory depth) fuel
            (readerAt start last position) done = .ok out

theorem take_body_length {body count : Nat}
    (inside : body + count ≤ memory.length) :
    ((memory.drop body).take count).length = count := by
  rw [List.length_take, List.length_drop]
  omega

theorem convertString_eq (small : memory.length ≤ 2 ^ 31)
    {position body count : Nat} {last : Int}
    (length : LengthAt memory position body count)
    (room : position < last) (fits : (body + count : Int) ≤ last)
    (inside : body + count ≤ memory.length) :
    convertString memory (readerAt position last position) =
      .ok (.bytes ((memory.drop body).take count), []) := by
  have first := length.position_lt_body
  have size : toInt32 ((count : Int) + 1) = ((count + 1 : Nat) : Int) := by
    rw [toInt32_of_range (by omega) (by omega)]
    omega
  have value := bencodeStringValue_eq length room
  rw [if_pos fits] at value
  have bytes := take_body_length inside
  have copied := terminatedCopy_of_fits inside (Nat.le_succ count)
    (by omega : count < 2 ^ 31)
  rw [Buffer.store_of_lt (by
    rw [List.length_append, bytes, List.length_replicate]
    omega)] at copied
  rw [convertString, value, ok_bind]
  simp only [size, copied, ok_bind, pure_exec, Int.toNat_natCast]
  rw [List.set_append_right _ _ (Nat.le_of_eq bytes),
    List.take_append_of_le_length (Nat.le_of_eq bytes.symm),
    List.take_of_length_le (Nat.le_of_eq bytes)]

theorem convertElement_eq (convert : Bencode → Exec Converted)
    {position : Nat} {last : Int}
    (runInside :
      position + (digitsAt memory position).length < memory.length) :
    convertElement memory convert (readerAt position last position) =
      if memory[position]? = some (ch 'd') then
        convert (readerAt position last position) >>= fun child =>
          .ok (some (.map child.map), child.stray)
      else if TextOpens memory position then
        convertString memory (readerAt position last position) >>=
          fun read => .ok (some read.1, read.2)
      else
        .ok (none, []) := by
  have inside : position < memory.length := by omega
  rw [convertElement, bencodeIsDict, startsWith_eq inside, ok_bind,
    bencodeIsString_eq runInside, ok_bind]
  simp only [decide_eq_true_eq]
  rfl

theorem convertValue_eq (iterate : Iterate)
    (convert : Bencode → Exec Converted) (fuel : Nat)
    {position : Nat} {last : Int}
    (runInside :
      position + (digitsAt memory position).length < memory.length) :
    convertValue memory iterate convert fuel
        (readerAt position last position) =
      if memory[position]? = some (ch 'd') then
        convert (readerAt position last position) >>= fun child =>
          .ok (some (.map child.map), child.stray)
      else if memory[position]? = some (ch 'i') then
        bencodeIntValue memory (readerAt position last position) >>=
          fun value => .ok (some (.long (value.getD 0)), [])
      else if TextOpens memory position then
        convertString memory (readerAt position last position) >>=
          fun read => .ok (some read.1, read.2)
      else if memory[position]? = some (ch 'l') then
        convertList memory iterate convert fuel
            (readerAt position last position) (linkedlistNew, []) >>=
          fun read => .ok (some (.list read.1), read.2)
      else
        .ok (none, []) := by
  have inside : position < memory.length := by omega
  rw [convertValue, bencodeIsDict, startsWith_eq inside, ok_bind,
    bencodeIsInt, startsWith_eq inside, ok_bind,
    bencodeIsString_eq runInside, ok_bind,
    bencodeIsList, startsWith_eq inside, ok_bind]
  simp only [decide_eq_true_eq]
  rfl

section Marks

variable {position : Nat} {last : Int}

theorem convertElement_dict (convert : Bencode → Exec Converted)
    (opens : memory[position]? = some (ch 'd')) :
    convertElement memory convert (readerAt position last position) =
      convert (readerAt position last position) >>= fun child =>
        .ok (some (.map child.map), child.stray) := by
  rw [convertElement_eq _ (run_inside opens (by decide)), if_pos opens]

theorem convertValue_dict (iterate : Iterate)
    (convert : Bencode → Exec Converted) (fuel : Nat)
    (opens : memory[position]? = some (ch 'd')) :
    convertValue memory iterate convert fuel
        (readerAt position last position) =
      convert (readerAt position last position) >>= fun child =>
        .ok (some (.map child.map), child.stray) := by
  rw [convertValue_eq _ _ _ (run_inside opens (by decide)), if_pos opens]

/-- A mark that opens neither a dictionary nor a text is dropped from a
list. -/
theorem convertElement_dropped (convert : Bencode → Exec Converted)
    {mark : UInt8} (opens : memory[position]? = some mark)
    (notDigit : isDigit mark = false) (notDict : mark ≠ ch 'd') :
    convertElement memory convert (readerAt position last position) =
      .ok (none, []) := by
  have otherwise : memory[position]? ≠ some (ch 'd') := by
    rw [opens]
    exact fun same => notDict (Option.some.inj same)
  rw [convertElement_eq _ (run_inside opens notDigit), if_neg otherwise,
    if_neg fun isText => isText.not_mark notDigit opens]

theorem convertValue_integer (iterate : Iterate)
    (convert : Bencode → Exec Converted) (fuel : Nat)
    (opens : memory[position]? = some (ch 'i')) :
    convertValue memory iterate convert fuel
        (readerAt position last position) =
      bencodeIntValue memory (readerAt position last position) >>=
        fun value => .ok (some (.long (value.getD 0)), []) := by
  have notDict : memory[position]? ≠ some (ch 'd') := by
    rw [opens]
    decide
  rw [convertValue_eq _ _ _ (run_inside opens (by decide)),
    if_neg notDict, if_pos opens]

theorem convertValue_list (iterate : Iterate)
    (convert : Bencode → Exec Converted) (fuel : Nat)
    (opens : memory[position]? = some (ch 'l')) :
    convertValue memory iterate convert fuel
        (readerAt position last position) =
      convertList memory iterate convert fuel
          (readerAt position last position) (linkedlistNew, []) >>=
        fun read => .ok (some (.list read.1), read.2) := by
  have notDict : memory[position]? ≠ some (ch 'd') := by
    rw [opens]
    decide
  have notInt : memory[position]? ≠ some (ch 'i') := by
    rw [opens]
    decide
  have notText : ¬ TextOpens memory position :=
    fun isText => isText.not_mark (by decide) opens
  rw [convertValue_eq _ _ _ (run_inside opens (by decide)),
    if_neg notDict, if_neg notInt, if_neg notText, if_pos opens]

theorem convertElement_text (convert : Bencode → Exec Converted)
    {body count : Nat} (length : LengthAt memory position body count) :
    convertElement memory convert (readerAt position last position) =
      convertString memory (readerAt position last position) >>=
        fun read => .ok (some read.1, read.2) := by
  have isText : TextOpens memory position :=
    ⟨length.digits, length.colon⟩
  rw [convertElement_eq _ (lt_length_of_byte length.colon),
    if_neg (isText.not_mark (by decide)), if_pos isText]

theorem convertValue_text (iterate : Iterate)
    (convert : Bencode → Exec Converted) (fuel : Nat)
    {body count : Nat} (length : LengthAt memory position body count) :
    convertValue memory iterate convert fuel
        (readerAt position last position) =
      convertString memory (readerAt position last position) >>=
        fun read => .ok (some read.1, read.2) := by
  have isText : TextOpens memory position :=
    ⟨length.digits, length.colon⟩
  rw [convertValue_eq _ _ _ (lt_length_of_byte length.colon),
    if_neg (isText.not_mark (by decide)),
    if_neg (isText.not_mark (by decide)), if_pos isText]

end Marks

theorem convertDict_round (iterate : Iterate)
    (convert : Bencode → Exec Converted) (fuel : Nat)
    {start position : Nat} {last : Int} (done : Converted)
    (keyInside : keyPosition memory position < memory.length) :
    convertDict memory iterate convert (fuel + 1)
        (readerAt start last position) done =
      if DictEnds memory last position then
        .ok done
      else
        bencodeDictGetNext memory iterate (readerAt start last position) >>=
          fun found =>
            match found with
            | none => .ok done
            | some next =>
                convertEntry memory iterate convert fuel next done >>=
                  convertDict memory iterate convert fuel next.be := by
  rw [convertDict, bencodeDictHasNext_bind keyInside]
  rfl

theorem convertList_round (iterate : Iterate)
    (convert : Bencode → Exec Converted) (fuel : Nat)
    {start position : Nat} {last : Int} (done : ConvertedList)
    (itemInside : itemPosition memory start position < memory.length) :
    convertList memory iterate convert (fuel + 1)
        (readerAt start last position) done =
      if memory[position]? = some (ch 'l') ∧ position = start ∧
          memory[position + 1]? = some (ch 'e') then
        .ok done
      else if memory[position]? = some (ch 'e') then
        .ok done
      else
        bencodeListGetNext memory iterate (readerAt start last position) >>=
          fun found =>
            match found with
            | .ended _ => .error .uninitialised
            | .failed benk benl =>
                convertItem memory convert benl done >>=
                  convertList memory iterate convert fuel benk
            | .found benk benl =>
                convertItem memory convert benl done >>=
                  convertList memory iterate convert fuel benk := by
  rw [convertList, bencodeListHasNext_bind itemInside]
  rfl

theorem convertItem_answers
    {convert : Bencode → Exec Converted} {benl : Bencode}
    (converted : ∃ out, convertElement memory convert benl = .ok out)
    (done : ConvertedList) :
    ∃ out, convertItem memory convert benl done = .ok out := by
  obtain ⟨⟨element, missed⟩, converted⟩ := converted
  rw [convertItem, converted, ok_bind]
  cases element with
  | none => exact ⟨_, rfl⟩
  | some object => exact ⟨_, rfl⟩

/-- The terminator of the key is stored behind its array. -/
theorem convertEntry_eq (small : memory.length ≤ 2 ^ 31)
    {iterate : Iterate} {convert : Bencode → Exec Converted} {fuel : Nat}
    (be : Bencode) {item : Bencode} {position body count : Nat}
    (length : LengthAt memory position body count)
    (inside : body + count < memory.length)
    {object : Option Object} {missed : List Nat}
    (converted :
      convertValue memory iterate convert fuel item = .ok (object, missed))
    (done : Converted) :
    convertEntry memory iterate convert fuel
        ⟨be, item, some body, count⟩ done =
      storeObject done.map
          (CString.ofBytes ((memory.drop body).take count)) object >>=
        fun map => .ok ⟨map, done.stray ++ [count] ++ missed⟩ := by
  have first := length.position_lt_body
  have bytes := take_body_length (Nat.le_of_lt inside)
  have copied := terminatedCopy_of_fits (Nat.le_of_lt inside)
    (Nat.le_refl count) (by omega : count < 2 ^ 31)
  rw [Nat.sub_self, List.replicate_zero, List.append_nil,
    Buffer.store_of_le (Nat.le_of_eq bytes)] at copied
  simp only [convertEntry, copied, ok_bind, converted, pure_exec,
    List.nil_append]

theorem convertEntry_answers (small : memory.length ≤ 2 ^ 31)
    {iterate : Iterate} {convert : Bencode → Exec Converted} {fuel : Nat}
    (be : Bencode) {item : Bencode} {position body count : Nat}
    (length : LengthAt memory position body count)
    (inside : body + count < memory.length)
    (converted :
      ∃ out, convertValue memory iterate convert fuel item = .ok out)
    (done : Converted) :
    ∃ out,
      convertEntry memory iterate convert fuel
        ⟨be, item, some body, count⟩ done = .ok out := by
  obtain ⟨⟨object, missed⟩, converted⟩ := converted
  have short : (CString.ofBytes
      ((memory.drop body).take count)).bytes.length < 2 ^ 32 := by
    have bound := CString.ofBytes_length_le ((memory.drop body).take count)
    have bytes := take_body_length (Nat.le_of_lt inside)
    omega
  obtain ⟨map, stored⟩ := storeObject_answers done.map short object
  rw [convertEntry_eq small be length inside converted done, stored]
  exact ⟨_, rfl⟩

theorem bencodeIntValue_eq (start : Nat) (last : Int) {position : Nat}
    (digits : digitsAt memory (intDigits memory position) ≠ [])
    (closes :
      memory[intDigits memory position +
        (digitsAt memory (intDigits memory position)).length]? =
          some (ch 'e')) :
    bencodeIntValue memory (readerAt start last position) =
      .ok (some (intValueAt memory position)) := by
  have read := readStringInt_eq (lt_length_of_byte closes)
  simp only [bencodeIntValue, readerAt, read, ok_bind, if_neg digits,
    peek_of_byte closes, if_true, pure_exec]

theorem bencodeToHashmap_of_dict {start depth : Nat} {last : Int}
    (opens : memory[start]? = some (ch 'd')) :
    bencodeToHashmap memory (depth + 1) (readerAt start last start) =
      convertDict memory (iterateToNextStringPos memory depth)
        (bencodeToHashmap memory depth) depth (readerAt start last start)
        ⟨hashmapNew, []⟩ := by
  rw [bencodeToHashmap, bencodeIsDict,
    startsWith_eq (lt_length_of_byte opens), ok_bind, opens]
  rfl

theorem reads_converts (terminated : Terminated memory)
    (small : memory.length ≤ 2 ^ 31) {task : Task} {result : Option Nat}
    (reads : Reads memory task result) :
    Converts memory task result := by
  induction reads with
  | @dict last position result opens entries inductionHypothesis =>
      intro next _ _ depth fuel deep _ window
      have inside := lt_length_of_byte opens
      obtain ⟨depth, rfl⟩ := Nat.exists_eq_add_one_of_ne_zero
        (by omega : depth ≠ 0)
      obtain ⟨child, converted⟩ := inductionHypothesis depth depth
        ⟨hashmapNew, []⟩ (by omega) (by omega) ⟨Nat.le_refl _, window⟩
      rw [convertElement_dict _ opens, convertValue_dict _ _ _ opens,
        bencodeToHashmap_of_dict opens, converted]
      exact ⟨⟨_, rfl⟩, ⟨_, rfl⟩⟩
  | @list last position result opens items inductionHypothesis =>
      intro next member _ depth fuel deep enough window
      obtain ⟨list, converted⟩ := inductionHypothesis next member depth fuel
        (linkedlistNew, []) (by omega) enough ⟨Nat.le_refl _, window⟩ opens
      rw [convertElement_dropped _ opens (by decide) (by decide),
        convertValue_list _ _ _ opens, converted]
      exact ⟨⟨_, rfl⟩, ⟨_, rfl⟩⟩
  | @text last position body count length room =>
      intro next member nextInside depth fuel _ _ _
      have fits : (body + count : Int) ≤ last := by
        by_contra long
        rw [if_neg long] at member
        cases member
      rw [if_pos fits] at member
      cases member
      have converted := convertString_eq small length room fits
        (Nat.le_of_lt nextInside)
      rw [convertElement_text _ length, convertValue_text _ _ _ length,
        converted]
      exact ⟨⟨_, rfl⟩, ⟨_, rfl⟩⟩
  | @integer last position opens digits closes =>
      intro next _ _ depth fuel _ _ _
      have converted := bencodeIntValue_eq position last digits closes
      rw [convertElement_dropped _ opens (by decide) (by decide),
        convertValue_integer _ _ _ opens, converted]
      exact ⟨⟨_, rfl⟩, ⟨_, rfl⟩⟩
  | bareInteger _ _ =>
      intro next member
      cases member
  | unknown _ =>
      intro next member
      cases member
  | @dictEnd start last position inside ends =>
      intro depth fuel done _ enough _
      obtain ⟨fuel, rfl⟩ := Nat.exists_eq_add_one_of_ne_zero
        (by omega : fuel ≠ 0)
      rw [convertDict_round _ _ _ _ (terminated.key_lt inside), if_pos ends]
      exact ⟨done, rfl⟩
  | @entry start last position value next result more key read rest
      valueConverts restConverts =>
      intro depth fuel done deep enough range
      have forward := key.position_lt
      have valueInside := key.inside
      have progress := read.forward next rfl
      have nextInside := rest.inside
      have order := range.order
      have window := range.window
      simp only [Task.position] at progress nextInside
      obtain ⟨fuel, rfl⟩ := Nat.exists_eq_add_one_of_ne_zero
        (by omega : fuel ≠ 0)
      obtain ⟨body, count, length, rfl⟩ := key.key
      have step := dictStep_of_skips small range (range.room_of_more more)
        length valueInside deep (reads_skips terminated small read)
      obtain ⟨_, converted⟩ := valueConverts next rfl nextInside depth fuel
        (by omega) (by omega) (by omega)
      obtain ⟨after, entered⟩ := convertEntry_answers small
        (readerAt start last next) length valueInside converted done
      rw [convertDict_round _ _ _ _ (terminated.key_lt (by omega)),
        if_neg more, step]
      simp only [ok_bind, Option.map_some, entered]
      exact restConverts depth fuel after (by omega) (by omega)
        ⟨by omega, window⟩
  | @entryFails start last position value more key failed _ =>
      intro depth fuel done deep enough range
      have forward := key.position_lt
      have valueInside := key.inside
      obtain ⟨fuel, rfl⟩ := Nat.exists_eq_add_one_of_ne_zero
        (by omega : fuel ≠ 0)
      obtain ⟨body, count, length, rfl⟩ := key.key
      have step := dictStep_of_skips small range (range.room_of_more more)
        length valueInside deep (reads_skips terminated small failed)
      rw [convertDict_round _ _ _ _ (terminated.key_lt (by omega)),
        if_neg more, step]
      exact ⟨done, rfl⟩
  | @emptyList start last opens closes =>
      intro next _ depth fuel done _ enough _ _
      have inside := lt_length_of_byte opens
      obtain ⟨fuel, rfl⟩ := Nat.exists_eq_add_one_of_ne_zero
        (by omega : fuel ≠ 0)
      rw [convertList_round _ _ _ _ (terminated.item_lt inside),
        if_pos ⟨opens, rfl, closes⟩]
      exact ⟨done, rfl⟩
  | @listEnd start last position closes =>
      intro next _ depth fuel done _ enough _ _
      have inside := lt_length_of_byte closes
      obtain ⟨fuel, rfl⟩ := Nat.exists_eq_add_one_of_ne_zero
        (by omega : fuel ≠ 0)
      rw [convertList_round _ _ _ _ (terminated.item_lt inside),
        if_neg (by rintro ⟨opens, _⟩; rw [opens] at closes; cases closes),
        if_pos closes]
      exact ⟨done, rfl⟩
  | @item start last position next result more element room read rest
      valueConverts restConverts =>
      intro final member depth fuel done deep enough range opens
      have itemInside := read.inside
      have before := le_itemPosition memory start position
      have behind := lt_itemPosition opens range.order
      have progress := read.forward next rfl
      have nextInside := rest.inside
      have order := range.order
      have window := range.window
      simp only [Task.position] at itemInside progress nextInside
      obtain ⟨fuel, rfl⟩ := Nat.exists_eq_add_one_of_ne_zero
        (by omega : fuel ≠ 0)
      have itemOpens : ItemOpens memory start position :=
        ⟨more, element, itemInside⟩
      have step := listStep_of_skips small range room itemOpens opens deep
        (reads_skips terminated small read)
      obtain ⟨converted, _⟩ := valueConverts next rfl nextInside depth
        (2 * memory.length) (by omega) (by omega) (by omega)
      obtain ⟨after, appended⟩ := convertItem_answers converted done
      rw [convertList_round _ _ _ _ (terminated.item_lt (by omega)),
        if_neg itemOpens.not_empty, if_neg more, step]
      simp only [ok_bind, itemStep, appended]
      exact restConverts final member depth fuel after deep (by omega)
        ⟨by omega, window⟩ opens
  | itemFails _ _ _ _ _ =>
      intro next member
      cases member

/-- A conversion that answers has followed the grammar over its entries. -/
theorem convertDict_reads (terminated : Terminated memory)
    (small : memory.length ≤ 2 ^ 31) {iterate : Iterate}
    (sound : SkipsSound memory iterate)
    (stays : StaysInside memory iterate)
    (convert : Bencode → Exec Converted)
    (fuel : Nat) {start position : Nat} {last : Int}
    {done final : Converted}
    (range : InRange start last position)
    (ran : convertDict memory iterate convert fuel
      (readerAt start last position) done = .ok final) :
    ∃ result, Reads memory (.entries start last position) result := by
  induction fuel generalizing position done with
  | zero =>
      cases ran
  | succ fuel inductionHypothesis =>
      have inside : position < memory.length := by
        by_contra outside
        rw [convertDict, bencodeDictHasNext_of_le (Nat.not_lt.mp outside)]
          at ran
        cases ran
      rw [convertDict_round _ _ _ _ (terminated.key_lt inside)] at ran
      by_cases ends : DictEnds memory last position
      · exact ⟨_, .dictEnd inside ends⟩
      · rw [if_neg ends, bind_eq_ok_iff] at ran
        obtain ⟨found, step, rest⟩ := ran
        obtain ⟨value, key, outcome⟩ :=
          entry_reads terminated small sound stays range inside ends step
        rcases outcome with ⟨rfl, failed⟩ | ⟨item, next, rfl, place, read⟩
        · exact ⟨none, .entryFails ends key failed⟩
        · have forward := read.forward next rfl
          have before := key.position_lt
          have order := range.order
          have nextRange : InRange start last next :=
            ⟨by simp only [Task.position] at forward; omega, range.window⟩
          simp only [bind_eq_ok_iff, place] at rest
          obtain ⟨after, _, walked⟩ := rest
          obtain ⟨result, reads⟩ := inductionHypothesis nextRange walked
          exact ⟨result, .entry ends key read reads⟩

end Converting

section Buffers

/-- The conversion returns: it terminates without reading outside the
buffer, dereferencing `NULL` or failing an assertion. -/
def Survives (buf : List UInt8) : Prop :=
  ∃ out, Returns (convertBuffer buf) out

/-- A buffer that is no dictionary, or whose entries the grammar reads. -/
def Survivable (buf : List UInt8) : Prop :=
  buf[0]? ≠ some (ch 'd') ∨
    ∃ result, Reads (buf ++ [0]) (.entries 0 buf.length 0) result

variable {buf : List UInt8}

theorem convertBuffer_eq (size : buf.length < 2 ^ 31) (depth : Nat) :
    convertBuffer buf depth =
      bencodeToHashmap (buf ++ [0]) depth (readerAt 0 buf.length 0) := by
  have length : toInt32 buf.length = buf.length :=
    toInt32_of_range (by omega) (by omega)
  simp [convertBuffer, bencodeInit, readerAt, length]

theorem first_byte (nonempty : 1 ≤ buf.length) :
    (buf ++ [0])[0]? = buf[0]? :=
  List.getElem?_append_left nonempty

theorem convertBuffer_of_other (nonempty : 1 ≤ buf.length)
    (size : buf.length < 2 ^ 31) (other : buf[0]? ≠ some (ch 'd'))
    (depth : Nat) :
    convertBuffer buf (depth + 1) = .ok ⟨hashmapNew, []⟩ := by
  have inside : 0 < (buf ++ [0]).length := by simp
  rw [convertBuffer_eq size, bencodeToHashmap, bencodeIsDict,
    startsWith_eq inside, ok_bind, first_byte nonempty]
  simp [other]

theorem survivable_of_survives (nonempty : 1 ≤ buf.length)
    (size : buf.length < 2 ^ 31) (survives : Survives buf) :
    Survivable buf := by
  by_cases isDict : buf[0]? = some (ch 'd')
  · right
    obtain ⟨out, depth, ran⟩ := survives
    have small : (buf ++ [0]).length ≤ 2 ^ 31 := by
      rw [List.length_append, List.length_singleton]
      exact size
    have terminated : Terminated (buf ++ [0]) := ⟨buf, rfl⟩
    rw [convertBuffer_eq size] at ran
    cases depth with
    | zero =>
        cases ran
    | succ depth =>
        rw [bencodeToHashmap_of_dict ((first_byte nonempty).trans isDict)]
          at ran
        exact convertDict_reads terminated small
          (iterate_sound terminated small depth) (iterate_stays depth) _
          depth ⟨Nat.le_refl 0, by omega⟩ ran
  · exact .inl isDict

theorem survives_of_survivable (nonempty : 1 ≤ buf.length)
    (size : buf.length < 2 ^ 31) (survivable : Survivable buf) :
    Survives buf := by
  by_cases isDict : buf[0]? = some (ch 'd')
  · rcases survivable with other | ⟨result, reads⟩
    · exact absurd isDict other
    · have small : (buf ++ [0]).length ≤ 2 ^ 31 := by
        rw [List.length_append, List.length_singleton]
        exact size
      obtain ⟨out, ran⟩ := reads_converts ⟨buf, rfl⟩ small reads
        (2 * (buf ++ [0]).length) (2 * (buf ++ [0]).length)
        ⟨hashmapNew, []⟩ (by omega) (by omega)
        ⟨Nat.le_refl 0, by omega⟩
      refine ⟨out, 2 * (buf ++ [0]).length + 1, ?_⟩
      rw [convertBuffer_eq size,
        bencodeToHashmap_of_dict ((first_byte nonempty).trans isDict)]
      exact ran
  · exact ⟨_, 1, convertBuffer_of_other nonempty size isDict 0⟩

/-- The conversion of a buffer of any length an `int` can hold returns
exactly when the buffer is survivable. -/
theorem bencodeToHashmap_survives_iff (nonempty : 1 ≤ buf.length)
    (size : buf.length < 2 ^ 31) :
    Survives buf ↔ Survivable buf :=
  ⟨survivable_of_survives nonempty size,
    survives_of_survivable nonempty size⟩

theorem bencodeToHashmap_survives_entries :
    Survives (text "d3:agei7e4:name2:xye") ↔
      Survivable (text "d3:agei7e4:name2:xye") :=
  bencodeToHashmap_survives_iff (by decide) (by decide)

/-- A key length that is not followed by a colon fails an assertion. -/
theorem bencodeToHashmap_fails_without_colon :
    1 ≤ (text "d1x").length ∧ (text "d1x").length < 2 ^ 31 ∧
      ¬ Survives (text "d1x") := by
  refine ⟨by decide, by decide, fun survives => ?_⟩
  have noEnd : ¬ DictEnds (text "d1x" ++ [0]) (text "d1x").length 0 := by
    decide
  have noKey : ∀ value, ¬ KeyAt (text "d1x" ++ [0]) 0 value := by
    rintro value ⟨_, body, count, length, _⟩
    exact absurd length.colon (by decide)
  rcases survivable_of_survives (by decide) (by decide) survives with
    other | ⟨result, reads⟩
  · exact other (by decide)
  · cases reads with
    | dictEnd _ ends => exact noEnd ends
    | entry _ key _ _ => exact noKey _ key
    | entryFails _ key _ => exact noKey _ key

end Buffers

end UvgTorrent
