import Mathlib.Data.List.Perm.Basic
import UvgTorrent.Library.BitPlaces
import UvgTorrent.Library.Depth
import UvgTorrent.Library.Retry

/-!
# Random keys

`nrand32` and `nrand8_t` shuffle a table of bit positions that keeps its order
from one call to the next, and set the bits at the first of them.
-/

namespace UvgTorrent

open CProgram BitPlaces Retry

/-! ## The functions -/

/-- The two static tables, and what `rand` answers from now on.  `RAND_MAX`
is `randMax`. -/
structure RandState (randMax : Nat) where
  pos32 : Array Int32
  pos8 : Array Int32
  values : Stream' (Fin (randMax + 1))

/-- The table in `nrand32`. -/
def positions32 : Array Int32 :=
  #[0, 1, 2, 3, 4, 5, 6, 7,
    8, 9, 10, 11, 12, 13, 14, 15,
    16, 17, 18, 19, 20, 21, 22, 23,
    24, 25, 26, 27, 28, 29, 30, 31]

/-- The table in `nrand8_t`. -/
def positions8 : Array Int32 :=
  #[0, 1, 2, 3, 4, 5, 6, 7]

section Functions

variable {randMax : Nat}

def randStart (values : Stream' (Fin (randMax + 1))) : RandState randMax :=
  ⟨positions32, positions8, values⟩

def rand : Prog (RandState randMax) Nat := do
  let state ← getState
  setState { state with values := state.values.tail }
  pure state.values.head

/-- `randto`, with at most `tries` calls of `rand`.  Its callers ask for an
`n` of at least two. -/
def randto (n : Nat) : Nat → Prog (RandState randMax) Nat
  | 0 => liftExec (.error .unfinished)
  | tries + 1 => do
      let r ← rand
      if randMax / n * n ≤ r then
        randto n tries
      else
        pure (r % n)

/-- `x[n]` and `x[j]` change places. -/
def swapEntries (x : Array Int32) (n j : Nat) : Exec (Array Int32) :=
  if inside : n < x.size ∧ j < x.size then
    .ok (x.swap n j inside.1 inside.2)
  else
    .error .readPast

/-- The rounds of `shuffle_signed` from an index down to one. -/
def shuffleFrom (tries : Nat) : Nat → Array Int32 →
    Prog (RandState randMax) (Array Int32)
  | 0, x => pure x
  | n + 1, x => do
      let j ← randto (n + 2) tries
      let swapped ← liftExec (swapEntries x (n + 1) j)
      shuffleFrom tries n swapped

def shuffleSigned (tries : Nat) (x : Array Int32) (n : Nat) :
    Prog (RandState randMax) (Array Int32) :=
  shuffleFrom tries (n - 1) x

/-- The loop `while (n--)`, where `put` is its body for one position. -/
def orPositions {β : Type} (put : β → Int32 → β) (pos : Array Int32) :
    Nat → β → Exec β
  | 0, v => .ok v
  | n + 1, v =>
      match pos[n]? with
      | some position => orPositions put pos n (put v position)
      | none => .error .readPast

/-- `orPositions` from zero; a negative count reads in front of the table. -/
def orFirst {β : Type} (put : β → Int32 → β) (pos : Array Int32) (n : Int)
    (v : β) : Exec β :=
  if 0 ≤ n then
    orPositions put pos n.toNat v
  else
    .error .readPast

def nrand32 (tries : Nat) (n : Int) : Prog (RandState randMax) Int32 := do
  let state ← getState
  let pos ← shuffleSigned tries state.pos32 32
  modifyState fun state => { state with pos32 := pos }
  liftExec (orFirst (fun v position => v ||| 1 <<< position) pos n 0)

/-- `nrand8_t`.  The bits are joined in an `int` and stored in a byte. -/
def nrand8T (tries : Nat) (n : Int) : Prog (RandState randMax) Int8 := do
  let state ← getState
  let pos ← shuffleSigned tries state.pos8 8
  modifyState fun state => { state with pos8 := pos }
  liftExec (orFirst
    (fun v position => (v.toInt32 ||| 1 <<< position).toInt8) pos n 0)

end Functions

/-! ## Calls in a row -/

inductive RandCall where
  | nrand32 (n : Int)
  | nrand8T (n : Int)
  deriving DecidableEq, Repr

inductive RandResult where
  | int32 (v : Int32)
  | int8 (v : Int8)
  deriving DecidableEq, Repr

/-- A call, its result and the state behind it. -/
structure RandRecord (randMax : Nat) where
  call : RandCall
  result : RandResult
  after : RandState randMax

section Calls

variable {randMax : Nat}

def RandCall.run (tries : Nat) :
    RandCall → Prog (RandState randMax) RandResult
  | .nrand32 n => do
      let v ← UvgTorrent.nrand32 tries n
      pure (.int32 v)
  | .nrand8T n => do
      let v ← UvgTorrent.nrand8T tries n
      pure (.int8 v)

def randCalls (tries : Nat) : List RandCall →
    Prog (RandState randMax) (List (RandRecord randMax))
  | [] => pure []
  | call :: rest => do
      let result ← call.run tries
      let after ← getState
      let records ← randCalls tries rest
      pure (⟨call, result, after⟩ :: records)

/-- The number of bits asked for. -/
def RandCall.InRange : RandCall → Prop
  | .nrand32 n => 0 ≤ n ∧ n ≤ 32
  | .nrand8T n => 0 ≤ n ∧ n ≤ 8

/-- The result has as many bits set as were asked for. -/
def RandCall.Answers : RandCall → RandResult → Prop
  | .nrand32 n, .int32 v => ((bitsSet v.toBitVec).card : Int) = n
  | .nrand8T n, .int8 v => ((bitsSet v.toBitVec).card : Int) = n
  | _, _ => False

/-- Both tables hold the positions in some order. -/
structure RandState.Permuted (state : RandState randMax) : Prop where
  pos32 : state.pos32.toList.Perm positions32.toList
  pos8 : state.pos8.toList.Perm positions8.toList

/-- What `randto` is asked for by a shuffle from an index on. -/
def shuffleLoops : Nat → List Nat
  | 0 => []
  | n + 1 => (n + 2) :: shuffleLoops n

/-- What `randto` is asked for by a call. -/
def RandCall.loops : RandCall → List Nat
  | .nrand32 _ => shuffleLoops 31
  | .nrand8T _ => shuffleLoops 7

/-- The rejection loop for `n` ends with the value at `index`. -/
def LoopEndsAt (n : Nat) (values : Stream' (Fin (randMax + 1)))
    (index : Nat) : Prop :=
  Settles (fun value => randMax / n * n ≤ value.val) values (index + 1) index

/-- Rejection loops that come one after another all end. -/
def LoopsEnd : List Nat → Stream' (Fin (randMax + 1)) → Prop
  | [], _ => True
  | n :: rest, values => ∃ index, LoopEndsAt n values index ∧
      LoopsEnd rest (values.drop (index + 1))

end Calls

/-! ## The shuffle -/

section Shuffle

variable {randMax : Nat} {state : RandState randMax} {x : Array Int32}
  {n : Nat} {rest : List Nat}

theorem rand_from (state : RandState randMax) :
    rand.from state =
      (.ok state.values.head.val, { state with values := state.values.tail }) :=
  rfl

theorem randto_from {index tries : Nat}
    (ends : LoopEndsAt n state.values index) (enough : index < tries) :
    (randto n tries).from state =
      (.ok ((state.values.get index).val % n),
        { state with values := state.values.drop (index + 1) }) := by
  induction index generalizing state tries with
  | zero =>
      cases tries with
      | zero =>
          exact absurd enough (Nat.lt_irrefl 0)
      | succ tries =>
          rw [randto, bind_from_ok (rand_from state), if_neg ends.heard]
          rfl
  | succ index inductionHypothesis =>
      cases tries with
      | zero =>
          exact absurd enough (Nat.not_lt_zero _)
      | succ tries =>
          have settled := settles_succ_iff.mp ends
          have further := @inductionHypothesis
            { state with values := state.values.tail } tries settled.2
            (Nat.lt_of_succ_lt_succ enough)
          rw [randto, bind_from_ok (rand_from state), if_pos settled.1]
          exact further

/-- An index in the range asked for is in the table. -/
theorem swapEntries_perm {j : Nat} (first : n < x.size)
    (second : j < x.size) :
    ∃ swapped, swapEntries x n j = .ok swapped ∧
      swapped.toList.Perm x.toList := by
  refine ⟨x.swap n j first second, dif_pos ⟨first, second⟩, ?_⟩
  apply Array.Perm.toList
  exact Array.swap_perm first second

theorem shuffleFrom_answers (inside : n < x.size)
    (ends : LoopsEnd (shuffleLoops n ++ rest) state.values) :
    ∃ shuffled values,
      AnswersFrom (fun tries => shuffleFrom tries n x) state shuffled
        { state with values := values } ∧
      shuffled.toList.Perm x.toList ∧ LoopsEnd rest values := by
  induction n generalizing x state with
  | zero =>
      exact ⟨x, state.values, .always (pure_from x state), .refl _, ends⟩
  | succ n inductionHypothesis =>
      rcases ends with ⟨index, loop, further⟩
      have drawn : AnswersFrom (randto (n + 2)) state _ _ :=
        ⟨index + 1, fun tries enough => randto_from loop enough⟩
      have below : (state.values.get index).val % (n + 2) < x.size := by
        have bound : (state.values.get index).val % (n + 2) < n + 2 :=
          Nat.mod_lt _ (by omega)
        omega
      rcases swapEntries_perm inside below with ⟨swapped, ran, swap⟩
      have size := swap.length_eq
      rw [Array.length_toList, Array.length_toList] at size
      rcases @inductionHypothesis
          { state with values := state.values.drop (index + 1) } swapped
          (by omega) further with ⟨shuffled, values, answers, perm, others⟩
      refine ⟨shuffled, values, ?_, perm.trans swap, others⟩
      apply drawn.bind
      apply AnswersFrom.bind (.always (by rw [liftExec_from, ran]))
      exact answers

end Shuffle

/-! ## The bits -/

section Bits

variable {β : Type} {width : Nat} {pattern : β → BitVec width}
  {put : β → Int32 → β} {pos table : Array Int32} {n : Nat}

/-- The place of the bit that a position stands for. -/
def placeOf (position : Int32) : Nat :=
  position.toInt.toNat

/-- The body of the loop sets the bit at each position of a table. -/
def PutsBits (pattern : β → BitVec width) (put : β → Int32 → β)
    (table : Array Int32) : Prop :=
  ∀ position ∈ table.toList, placeOf position < width ∧
    ∀ v, pattern (put v position) =
      pattern v ||| BitVec.twoPow width (placeOf position)

theorem PutsBits.perm (puts : PutsBits pattern put table)
    (perm : pos.toList.Perm table.toList) : PutsBits pattern put pos :=
  fun position member => puts position (perm.mem_iff.mp member)

theorem orPositions_sets (puts : PutsBits pattern put pos)
    (room : n ≤ pos.size) (v : β) :
    ∃ result, orPositions put pos n v = .ok result ∧
      bitsSet (pattern result) =
        ((pos.toList.take n).map placeOf).toFinset ∪
          bitsSet (pattern v) := by
  induction n generalizing v with
  | zero =>
      refine ⟨v, rfl, ?_⟩
      rw [List.take_zero, List.map_nil, List.toFinset_nil,
        Finset.empty_union]
  | succ n inductionHypothesis =>
      have inside : n < pos.toList.length := room
      have there : pos[n]? = some pos.toList[n] := by
        rw [← Array.getElem?_toList, List.getElem?_eq_getElem inside]
      rcases puts _ (List.getElem_mem inside) with ⟨below, puts⟩
      rcases inductionHypothesis (Nat.le_of_succ_le room)
          (put v pos.toList[n]) with ⟨result, ran, sets⟩
      refine ⟨result, ?_, ?_⟩
      · rw [orPositions, there]
        exact ran
      · rw [sets, puts v, bitsSet_or_twoPow below,
          ← List.take_concat_get' _ _ inside, List.map_append,
          List.toFinset_append]
        ext place
        simp only [Finset.mem_union, Finset.mem_insert, List.map_cons,
          List.map_nil, List.mem_toFinset, List.mem_singleton]
        tauto

/-- Distinct positions give distinct bits. -/
theorem orFirst_counts (puts : PutsBits pattern put pos)
    (distinct : (pos.toList.map placeOf).Nodup) {n : Int}
    (inRange : 0 ≤ n ∧ n ≤ pos.size) {v : β} (zero : pattern v = 0) :
    ∃ result, orFirst put pos n v = .ok result ∧
      ((bitsSet (pattern result)).card : Int) = n := by
  rcases @orPositions_sets _ _ _ _ _ n.toNat puts (by omega) v with
    ⟨result, ran, sets⟩
  refine ⟨result, (if_pos inRange.1).trans ran, ?_⟩
  have nodup : ((pos.toList.take n.toNat).map placeOf).Nodup := by
    rw [List.map_take]
    exact distinct.sublist (List.take_sublist _ _)
  rw [sets, zero, bitsSet_zero, Finset.union_empty,
    List.toFinset_card_of_nodup nodup, List.length_map, List.length_take,
    Array.length_toList]
  omega

end Bits

/-! ## The calls -/

section Calls

variable {randMax : Nat} {state : RandState randMax} {n : Int}
  {call : RandCall} {calls : List RandCall} {rest : List Nat}

theorem randStart_permuted (values : Stream' (Fin (randMax + 1))) :
    (randStart values).Permuted :=
  ⟨.refl _, .refl _⟩

theorem positions32_distinct :
    (positions32.toList.map placeOf).Nodup := by
  decide

theorem positions8_distinct : (positions8.toList.map placeOf).Nodup := by
  decide

/-- `1 << position`, cut to a width, is one bit. -/
def ShiftsIn (width : Nat) (position : Int32) : Prop :=
  placeOf position < width ∧
    ((1 : Int32) <<< position).toBitVec.setWidth width =
      BitVec.twoPow width (placeOf position)

instance (width : Nat) (position : Int32) :
    Decidable (ShiftsIn width position) :=
  inferInstanceAs (Decidable (_ ∧ _))

theorem positions32_shift (position : Int32)
    (member : position ∈ positions32.toList) : ShiftsIn 32 position := by
  have all : (positions32.toList.all (decide <| ShiftsIn 32 ·)) = true := by
    decide +kernel
  exact of_decide_eq_true (List.all_eq_true.mp all position member)

theorem positions8_shift (position : Int32)
    (member : position ∈ positions8.toList) : ShiftsIn 8 position := by
  have all : (positions8.toList.all (decide <| ShiftsIn 8 ·)) = true := by
    decide +kernel
  exact of_decide_eq_true (List.all_eq_true.mp all position member)

theorem nrand32_puts : PutsBits Int32.toBitVec
    (fun v position => v ||| 1 <<< position) positions32 := by
  intro position member
  rcases positions32_shift position member with ⟨below, shifted⟩
  refine ⟨below, fun v => ?_⟩
  rw [BitVec.setWidth_eq] at shifted
  rw [Int32.toBitVec_or, shifted]

/-- What is stored in the byte are the low bits of the `int`, the sign bit
among them. -/
theorem nrand8T_puts : PutsBits Int8.toBitVec
    (fun v position => (v.toInt32 ||| 1 <<< position).toInt8)
    positions8 := by
  intro position member
  rcases positions8_shift position member with ⟨below, shifted⟩
  refine ⟨below, fun v => ?_⟩
  have narrowed : (v.toInt32 ||| (1 : Int32) <<< position).toInt8.toBitVec =
      (v.toBitVec.signExtend 32 |||
        ((1 : Int32) <<< position).toBitVec).signExtend 8 :=
    rfl
  rw [narrowed, BitVec.signExtend_eq_setWidth_of_le _ (by decide),
    BitVec.setWidth_or, shifted]
  congr 1
  ext place inside
  have wide : place < 32 := by
    omega
  rw [BitVec.getElem_setWidth, BitVec.getLsbD_signExtend,
    decide_eq_true wide, Bool.true_and, if_pos inside,
    BitVec.getLsbD_eq_getElem]

/-- A table in some order is shuffled again, and the first of its positions
give as many bits. -/
theorem shuffleSigned_counts {β : Type} {width : Nat}
    {pattern : β → BitVec width} {put : β → Int32 → β}
    {pos table : Array Int32} (puts : PutsBits pattern put table)
    (distinct : (table.toList.map placeOf).Nodup)
    (permuted : pos.toList.Perm table.toList) (nonempty : 0 < table.size)
    (inRange : 0 ≤ n ∧ n ≤ table.size) {start : β}
    (zero : pattern start = 0)
    (ends : LoopsEnd (shuffleLoops (table.size - 1) ++ rest) state.values) :
    ∃ shuffled values v,
      AnswersFrom (shuffleSigned · pos table.size) state shuffled
        { state with values := values } ∧
      shuffled.toList.Perm table.toList ∧ LoopsEnd rest values ∧
      orFirst put shuffled n start = .ok v ∧
      ((bitsSet (pattern v)).card : Int) = n := by
  have size : pos.size = table.size := permuted.length_eq
  rcases @shuffleFrom_answers _ _ pos _ _ (by omega) ends with
    ⟨shuffled, values, answers, perm, others⟩
  have whole := perm.trans permuted
  have length : shuffled.size = table.size := whole.length_eq
  rcases orFirst_counts (puts.perm whole)
      ((whole.map placeOf).nodup_iff.mpr distinct)
      (by rw [length]; exact inRange) zero with ⟨v, ran, counts⟩
  exact ⟨shuffled, values, v, answers, whole, others, ran, counts⟩

theorem nrand32_answers (permuted : state.Permuted)
    (inRange : 0 ≤ n ∧ n ≤ 32)
    (ends : LoopsEnd (shuffleLoops 31 ++ rest) state.values) :
    ∃ v after, AnswersFrom (nrand32 · n) state v after ∧
      after.Permuted ∧ LoopsEnd rest after.values ∧
      ((bitsSet v.toBitVec).card : Int) = n := by
  rcases shuffleSigned_counts nrand32_puts positions32_distinct
      permuted.pos32 (by decide) inRange Int32.toBitVec_zero ends with
    ⟨pos, values, v, shuffled, whole, others, ran, counts⟩
  refine ⟨v, ⟨pos, state.pos8, values⟩, ?_, ⟨whole, permuted.pos8⟩, others,
    counts⟩
  apply AnswersFrom.bind (.always (getState_from state))
  apply AnswersFrom.bind shuffled
  apply AnswersFrom.bind (.always (modifyState_from _ _))
  apply AnswersFrom.always
  rw [liftExec_from, ran]

theorem nrand8T_answers (permuted : state.Permuted)
    (inRange : 0 ≤ n ∧ n ≤ 8)
    (ends : LoopsEnd (shuffleLoops 7 ++ rest) state.values) :
    ∃ v after, AnswersFrom (nrand8T · n) state v after ∧
      after.Permuted ∧ LoopsEnd rest after.values ∧
      ((bitsSet v.toBitVec).card : Int) = n := by
  rcases shuffleSigned_counts nrand8T_puts positions8_distinct
      permuted.pos8 (by decide) inRange Int8.toBitVec_zero ends with
    ⟨pos, values, v, shuffled, whole, others, ran, counts⟩
  refine ⟨v, ⟨state.pos32, pos, values⟩, ?_, ⟨permuted.pos32, whole⟩,
    others, counts⟩
  apply AnswersFrom.bind (.always (getState_from state))
  apply AnswersFrom.bind shuffled
  apply AnswersFrom.bind (.always (modifyState_from _ _))
  apply AnswersFrom.always
  rw [liftExec_from, ran]

/-- What one call does. -/
theorem call_answers (permuted : state.Permuted) (inRange : call.InRange)
    (ends : LoopsEnd (call.loops ++ rest) state.values) :
    ∃ result after, AnswersFrom (call.run ·) state result after ∧
      after.Permuted ∧ LoopsEnd rest after.values ∧
      call.Answers result := by
  cases call with
  | nrand32 n =>
      rcases nrand32_answers permuted inRange ends with
        ⟨v, after, answers, kept, others, counts⟩
      exact ⟨.int32 v, after, answers.bind (.always (pure_from _ _)), kept,
        others, counts⟩
  | nrand8T n =>
      rcases nrand8T_answers permuted inRange ends with
        ⟨v, after, answers, kept, others, counts⟩
      exact ⟨.int8 v, after, answers.bind (.always (pure_from _ _)), kept,
        others, counts⟩

/-- The table is one of its permutations, and the result has its bits. -/
def RandRecord.Sound (record : RandRecord randMax) : Prop :=
  record.after.Permuted ∧ record.call.Answers record.result

theorem randCalls_answers (permuted : state.Permuted)
    (inRange : ∀ call ∈ calls, call.InRange)
    (ends : LoopsEnd (calls.flatMap RandCall.loops) state.values) :
    ∃ records after, AnswersFrom (randCalls · calls) state records after ∧
      records.map RandRecord.call = calls ∧
      ∀ record ∈ records, record.Sound := by
  induction calls generalizing state with
  | nil =>
      exact ⟨[], state, .always (pure_from _ _), rfl,
        fun _ member => absurd member List.not_mem_nil⟩
  | cons call rest inductionHypothesis =>
      rw [List.flatMap_cons] at ends
      rcases call_answers permuted (inRange call List.mem_cons_self) ends
        with ⟨result, between, first, kept, others, counts⟩
      rcases inductionHypothesis kept
          (fun other member => inRange other (List.mem_cons_of_mem _ member))
          others with ⟨records, after, further, same, sound⟩
      refine ⟨⟨call, result, between⟩ :: records, after, ?_, ?_, ?_⟩
      · apply AnswersFrom.bind first
        apply AnswersFrom.bind (.always (getState_from between))
        exact further.bind (.always (pure_from _ _))
      · rw [List.map_cons, same]
      · intro record member
        rcases List.mem_cons.mp member with rfl | later
        · exact ⟨kept, counts⟩
        · exact sound record later

end Calls

/-- However often the two functions are called, in whatever order: if the
rejection loops end, every call returns as many bits as it was asked for and
leaves permutations behind. -/
theorem randCalls_exact {randMax : Nat} {calls : List RandCall}
    (inRange : ∀ call ∈ calls, call.InRange)
    {values : Stream' (Fin (randMax + 1))}
    (ends : LoopsEnd (calls.flatMap RandCall.loops) values) :
    ∃ records after,
      AnswersFrom (randCalls · calls) (randStart values) records after ∧
      records.map RandRecord.call = calls ∧
      ∀ record ∈ records, record.Sound :=
  randCalls_answers (randStart_permuted values) inRange ends

/-- A request for three bits out of eight, and values that are all zero. -/
theorem randCalls_exact_three :
    ∃ records after,
      AnswersFrom (randCalls · [.nrand8T 3])
        (randStart (Stream'.const (0 : Fin 32768))) records after ∧
      records.map RandRecord.call = [.nrand8T 3] ∧
      ∀ record ∈ records, record.Sound := by
  have heard : ∀ n ∈ shuffleLoops 7, 0 < 32767 / n * n := by
    decide
  have ends : ∀ {loops : List Nat}, (∀ n ∈ loops, 0 < 32767 / n * n) →
      LoopsEnd loops (Stream'.const (0 : Fin 32768)) := by
    intro loops accepted
    induction loops with
    | nil =>
        trivial
    | cons n rest inductionHypothesis =>
        refine ⟨0, ⟨Nat.one_pos, nofun, ?_⟩, inductionHypothesis ?_⟩
        · exact Nat.not_le.mpr (accepted n List.mem_cons_self)
        · exact fun other member =>
            accepted other (List.mem_cons_of_mem n member)
  apply randCalls_exact
  · intro call member
    rw [List.mem_singleton.mp member]
    exact ⟨by decide, by decide⟩
  · exact ends heard

end UvgTorrent
