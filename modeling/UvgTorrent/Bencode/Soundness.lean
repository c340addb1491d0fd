import UvgTorrent.Bencode.ReaderSpec

/-!
# A skip that answers has followed the grammar

By induction on the depth of the skip, and within one depth on the rounds of
its two loops: every answered run is a derivation of the grammar with the
same result.
-/

namespace UvgTorrent

open CProgram CText MachineInt

section Soundness

variable {memory : List UInt8}

/-- A skip out of an open container answers only as the grammar does. -/
def SkipsSound (memory : List UInt8) (iterate : Iterate) : Prop :=
  ∀ start position value last result,
    InRange start last position → (start : Int) < last →
      position ≤ value →
      iterate (readerAt start last position) (some value) = .ok result →
      Reads memory (.value (last + (position - start)) value) result

/-- The two loops read on from a round in the same way. -/
theorem skipDict_round (iterate : Iterate) (fuel : Nat)
    {start position : Nat} {last : Int}
    (keyInside : keyPosition memory position < memory.length) :
    skipDict memory iterate (fuel + 1) (readerAt start last position) =
      if DictEnds memory last position then
        .ok (some (readerAt start last position))
      else
        bencodeDictGetNext memory iterate (readerAt start last position) >>=
          fun found =>
            match found with
            | none => .ok none
            | some next => skipDict memory iterate fuel next.be := by
  rw [skipDict, bencodeDictHasNext_bind keyInside]
  rfl

theorem skipList_round (iterate : Iterate) (fuel : Nat)
    {start position : Nat} {last : Int}
    (itemInside : itemPosition memory start position < memory.length) :
    skipList memory iterate (fuel + 1) (readerAt start last position) =
      if memory[position]? = some (ch 'l') ∧ position = start ∧
          memory[position + 1]? = some (ch 'e') then
        .ok (some (readerAt start last (position + 1)))
      else if memory[position]? = some (ch 'e') then
        .ok (some (readerAt start last position))
      else
        bencodeListGetNext memory iterate (readerAt start last position) >>=
          fun found =>
            match found with
            | .failed _ _ => .ok none
            | .ended next => skipList memory iterate fuel next
            | .found next _ => skipList memory iterate fuel next := by
  rw [skipList, bencodeListHasNext_bind itemInside]
  rfl

theorem bencodeDictHasNext_of_le {start position : Nat} {last : Int}
    (outside : memory.length ≤ position) :
    bencodeDictHasNext memory (readerAt start last position) =
      .error .readPast := by
  change (peek memory position >>= _) = _
  rw [peek_of_le outside, error_bind]

theorem bencodeListHasNext_of_le {start position : Nat} {last : Int}
    (outside : memory.length ≤ position) :
    bencodeListHasNext memory (readerAt start last position) =
      .error .readPast := by
  change (peek memory position >>= _) = _
  rw [peek_of_le outside, error_bind]

theorem entry_reads (terminated : Terminated memory)
    (small : memory.length ≤ 2 ^ 31) {iterate : Iterate}
    (sound : SkipsSound memory iterate)
    (stays : StaysInside memory iterate)
    {start position : Nat} {last : Int} {found : Option DictItem}
    (range : InRange start last position)
    (inside : position < memory.length)
    (more : ¬ DictEnds memory last position)
    (ran : bencodeDictGetNext memory iterate (readerAt start last position) =
      .ok found) :
    ∃ value, KeyAt memory position value ∧
      ((found = none ∧
          Reads memory (.value (last + (position - start)) value) none) ∨
        ∃ item next, found = some item ∧
          item.be = readerAt start last next ∧
          Reads memory (.value (last + (position - start)) value)
            (some next)) := by
  obtain ⟨value, key⟩ :=
    keyAt_of_bencodeDictGetNext terminated stays inside more ran
  refine ⟨value, key, ?_⟩
  have forward := key.position_lt
  have order := range.order
  have room : (start : Int) < last := by
    by_contra closed
    exact more (dictEnds_of_le (by omega))
  obtain ⟨body, count, _, _, step⟩ :=
    bencodeDictGetNext_of_keyAt small iterate range more key
  rw [step, bind_eq_ok_iff] at ran
  obtain ⟨result, skipped, answer⟩ := ran
  have reads := sound start position value last result range room
    (by omega) skipped
  cases result with
  | none =>
      cases answer
      exact .inl ⟨rfl, reads⟩
  | some next =>
      cases answer
      exact .inr ⟨_, next, rfl, rfl, reads⟩

theorem skipDict_reads (terminated : Terminated memory)
    (small : memory.length ≤ 2 ^ 31) {iterate : Iterate}
    (sound : SkipsSound memory iterate)
    (stays : StaysInside memory iterate)
    (fuel : Nat) {start position : Nat} {last : Int}
    {final : Option Bencode}
    (range : InRange start last position)
    (ran : skipDict memory iterate fuel (readerAt start last position) =
      .ok final) :
    (final = none ∧ Reads memory (.entries start last position) none) ∨
      ∃ stop, final = some (readerAt start last stop) ∧
        stop < memory.length ∧
        Reads memory (.entries start last position)
          (some (afterDict memory stop)) := by
  induction fuel generalizing position with
  | zero =>
      cases ran
  | succ fuel inductionHypothesis =>
      have inside : position < memory.length := by
        by_contra outside
        rw [skipDict, bencodeDictHasNext_of_le (Nat.not_lt.mp outside)]
          at ran
        cases ran
      rw [skipDict_round iterate fuel (terminated.key_lt inside)] at ran
      by_cases ends : DictEnds memory last position
      · rw [if_pos ends] at ran
        cases ran
        exact .inr ⟨position, rfl, inside, .dictEnd inside ends⟩
      · rw [if_neg ends, bind_eq_ok_iff] at ran
        obtain ⟨found, step, rest⟩ := ran
        obtain ⟨value, key, outcome⟩ :=
          entry_reads terminated small sound stays range inside ends step
        rcases outcome with ⟨rfl, failed⟩ | ⟨item, next, rfl, place, read⟩
        · cases rest
          exact .inl ⟨rfl, .entryFails ends key failed⟩
        · have forward := read.forward next rfl
          have before := key.position_lt
          have order := range.order
          have nextRange : InRange start last next :=
            ⟨by simp only [Task.position] at forward; omega, range.window⟩
          simp only [place] at rest
          rcases inductionHypothesis nextRange rest with
            ⟨rfl, reads⟩ | ⟨stop, rfl, stopInside, reads⟩
          · exact .inl ⟨rfl, .entry ends key read reads⟩
          · exact .inr ⟨stop, rfl, stopInside, .entry ends key read reads⟩

theorem item_reads (small : memory.length ≤ 2 ^ 31) {iterate : Iterate}
    (sound : SkipsSound memory iterate)
    {start position : Nat} {last : Int} {found : ListNext}
    (range : InRange start last position)
    (opens : ItemOpens memory start position)
    (ran : bencodeListGetNext memory iterate (readerAt start last position) =
      .ok found) :
    (start : Int) < last ∧
      ((found = .failed ⟨none, some start, last - start⟩
            (readerAt (itemPosition memory start position)
              (last + (position - start))
              (itemPosition memory start position)) ∧
          Reads memory (.value (last + (position - start))
            (itemPosition memory start position)) none) ∨
        ∃ next,
          found = .found (readerAt start last next)
            (readerAt (itemPosition memory start position)
              (last + (position - start))
              (itemPosition memory start position)) ∧
          Reads memory (.value (last + (position - start))
            (itemPosition memory start position)) (some next)) := by
  have order := le_itemPosition memory start position
  have inside := opens.inside
  rw [bencodeListGetNext_eq iterate opens] at ran
  by_cases room : (start : Int) < last
  · rw [carryLength_readerAt range room order (by omega), ok_bind,
      bind_eq_ok_iff] at ran
    obtain ⟨result, skipped, answer⟩ := ran
    have reads := sound start position _ last result range room order
      skipped
    refine ⟨room, ?_⟩
    cases result with
    | none =>
        cases answer
        exact .inl ⟨rfl, reads⟩
    | some next =>
        cases answer
        exact .inr ⟨next, rfl, reads⟩
  · rw [carryLength_of_le (Int.not_lt.mp room)] at ran
    cases ran

theorem skipList_reads (terminated : Terminated memory)
    (small : memory.length ≤ 2 ^ 31) {iterate : Iterate}
    (sound : SkipsSound memory iterate)
    (fuel : Nat) {start position : Nat} {last : Int}
    {final : Option Bencode}
    (range : InRange start last position)
    (ran : skipList memory iterate fuel (readerAt start last position) =
      .ok final) :
    (final = none ∧ Reads memory (.items start last position) none) ∨
      ∃ stop, final = some (readerAt start last stop) ∧
        Reads memory (.items start last position) (some (stop + 1)) := by
  induction fuel generalizing position with
  | zero =>
      cases ran
  | succ fuel inductionHypothesis =>
      have inside : position < memory.length := by
        by_contra outside
        rw [skipList, bencodeListHasNext_of_le (Nat.not_lt.mp outside)]
          at ran
        cases ran
      rw [skipList_round iterate fuel (terminated.item_lt inside)] at ran
      by_cases empty : memory[position]? = some (ch 'l') ∧
          position = start ∧ memory[position + 1]? = some (ch 'e')
      · rw [if_pos empty] at ran
        cases ran
        obtain ⟨opens, rfl, closes⟩ := empty
        exact .inr ⟨position + 1, rfl, .emptyList opens closes⟩
      · rw [if_neg empty] at ran
        by_cases closes : memory[position]? = some (ch 'e')
        · rw [if_pos closes] at ran
          cases ran
          exact .inr ⟨position, rfl, .listEnd closes⟩
        · rw [if_neg closes, bind_eq_ok_iff] at ran
          obtain ⟨found, step, rest⟩ := ran
          have opens := itemOpens_of_more terminated inside closes empty
          obtain ⟨room, outcome⟩ := item_reads small sound range opens step
          rcases outcome with ⟨rfl, failed⟩ | ⟨next, rfl, read⟩
          · cases rest
            exact .inl
              ⟨rfl, .itemFails closes opens.element room failed⟩
          · have forward := read.forward next rfl
            have before := le_itemPosition memory start position
            have order := range.order
            have nextRange : InRange start last next :=
              ⟨by simp only [Task.position] at forward; omega,
                range.window⟩
            rcases inductionHypothesis nextRange rest with
              ⟨rfl, reads⟩ | ⟨stop, rfl, reads⟩
            · exact .inl
                ⟨rfl, .item closes opens.element room read reads⟩
            · exact .inr ⟨stop, rfl,
                .item closes opens.element room read reads⟩

/-- The branch a skip takes is decided by the first byte. -/
theorem skipItem_eq (iterate : Iterate) (fuel : Nat) {position : Nat}
    {last : Int}
    (runInside :
      position + (digitsAt memory position).length < memory.length) :
    skipItem memory iterate fuel (readerAt position last position) =
      if memory[position]? = some (ch 'd') then
        skipDict memory iterate fuel (readerAt position last position) >>=
          fun final =>
            match final with
            | none => .ok none
            | some iter => pastDict memory iter
      else if memory[position]? = some (ch 'l') then
        skipList memory iterate fuel (readerAt position last position) >>=
          fun final =>
            match final with
            | none => .ok none
            | some iter => .ok (iter.str.map (· + 1))
      else if TextOpens memory position then
        bencodeStringValue memory (readerAt position last position) >>=
          fun read =>
            .ok (read.1.map
              (fun place : Nat => ((place : Int) + read.2).toNat))
      else if memory[position]? = some (ch 'i') then
        pastInt memory (readerAt position last position)
      else
        .ok none := by
  have inside : position < memory.length := by omega
  rw [skipItem, bencodeIsDict, startsWith_eq inside, ok_bind,
    bencodeIsList, startsWith_eq inside, ok_bind,
    bencodeIsString_eq runInside, ok_bind,
    bencodeIsInt, startsWith_eq inside, ok_bind]
  simp only [decide_eq_true_eq]
  rfl

theorem skipItem_reads (terminated : Terminated memory)
    (small : memory.length ≤ 2 ^ 31) {iterate : Iterate}
    (sound : SkipsSound memory iterate)
    (stays : StaysInside memory iterate)
    (fuel : Nat) {position : Nat} {last : Int} {result : Option Nat}
    (inside : position < memory.length)
    (window : last - position < 2 ^ 31)
    (ran : skipItem memory iterate fuel (readerAt position last position) =
      .ok result) :
    Reads memory (.value last position) result := by
  have range : InRange position last position := ⟨Nat.le_refl _, window⟩
  rw [skipItem_eq iterate fuel (terminated.digits_lt inside)] at ran
  by_cases isDict : memory[position]? = some (ch 'd')
  · rw [if_pos isDict, bind_eq_ok_iff] at ran
    obtain ⟨final, walked, past⟩ := ran
    rcases skipDict_reads terminated small sound stays fuel range walked with
      ⟨rfl, reads⟩ | ⟨stop, rfl, stopInside, reads⟩
    · cases past
      exact .dict isDict reads
    · simp only [pastDict_eq (terminated.key_lt stopInside)] at past
      cases past
      exact .dict isDict reads
  by_cases isList : memory[position]? = some (ch 'l')
  · rw [if_neg isDict, if_pos isList, bind_eq_ok_iff] at ran
    obtain ⟨final, walked, past⟩ := ran
    rcases skipList_reads terminated small sound fuel range walked with
      ⟨rfl, reads⟩ | ⟨stop, rfl, reads⟩
    · cases past
      exact .list isList reads
    · cases past
      exact .list isList reads
  by_cases isText : TextOpens memory position
  · rw [if_neg isDict, if_neg isList, if_pos isText, bind_eq_ok_iff] at ran
    obtain ⟨read, value, past⟩ := ran
    obtain ⟨body, count, length, room⟩ :=
      lengthAt_of_bencodeStringValue terminated inside value
    rw [bencodeStringValue_eq length room] at value
    cases value
    cases past
    have reads := Reads.text length room
    have place : ((body : Int) + count).toNat = body + count := by omega
    by_cases fits : (body + count : Int) ≤ last
    · simpa [fits, place] using reads
    · simpa [fits] using reads
  by_cases isInt : memory[position]? = some (ch 'i')
  · rw [if_neg isDict, if_neg isList, if_neg isText, if_pos isInt,
      pastInt_eq (terminated.int_lt isInt)] at ran
    split at ran
    · rename_i empty
      cases ran
      exact .bareInteger isInt empty
    · rename_i digits
      split at ran
      · rename_i closes
        cases ran
        exact .integer isInt digits closes
      · cases ran
  · rw [if_neg isDict, if_neg isList, if_neg isText, if_neg isInt] at ran
    cases ran
    exact .unknown ⟨inside, isDict, isList, isInt, isText⟩

theorem iterate_stays (fuel : Nat) :
    StaysInside memory (iterateToNextStringPos memory fuel) := by
  intro be sp result ran
  cases fuel with
  | zero =>
      cases ran
  | succ fuel =>
      simp only [iterateToNextStringPos, bind_eq_ok_iff] at ran
      obtain ⟨len, _, walked⟩ := ran
      cases sp with
      | none =>
          cases walked
      | some position =>
          refine ⟨position, rfl, ?_⟩
          by_contra outside
          simp only [skipItem, bencodeIsDict, startsWith, bencodeInit,
            peek_of_le (Nat.not_lt.mp outside)] at walked
          cases walked

theorem iterate_sound (terminated : Terminated memory)
    (small : memory.length ≤ 2 ^ 31) (fuel : Nat) :
    SkipsSound memory (iterateToNextStringPos memory fuel) := by
  induction fuel with
  | zero =>
      intro start position value last result _ _ _ ran
      cases ran
  | succ fuel inductionHypothesis =>
      intro start position value last result range room forward ran
      obtain ⟨_, same, inside⟩ := iterate_stays (fuel + 1) _ _ _ ran
      cases same
      have window := range.window
      have order := range.order
      rw [iterateToNextStringPos,
        carryLength_readerAt range room forward (by omega), ok_bind,
        bencodeInit_eq] at ran
      exact skipItem_reads terminated small inductionHypothesis
        (iterate_stays fuel) fuel inside (by omega) ran

end Soundness

end UvgTorrent
