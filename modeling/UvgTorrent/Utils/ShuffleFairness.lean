import Mathlib.Data.Set.Card
import UvgTorrent.Library.Shuffle
import UvgTorrent.Utils.RandUtils

/-!
# Fairness of the shuffle

The values that end the rejection loops decide what the functions answer.
Every order of a table, and every pattern with as many bits as were asked for,
is answered for equally many choices of these values.
-/

namespace UvgTorrent

open CProgram BitPlaces Retry Shuffle
open scoped Nat

section Loops

variable {randMax : Nat} {β : Type}

/-- The values that end the rejection loops, one for each of them. -/
def heardValues (randMax : Nat) (loops : List Nat) : Finset (List Nat) :=
  choices (loops.map fun n => randMax / n * n)

/-- The rejection loops end with the values of a list. -/
def Served : List Nat → Stream' (Fin (randMax + 1)) → List Nat →
    Stream' (Fin (randMax + 1)) → Prop
  | [], values, heard, after => heard = [] ∧ after = values
  | n :: rest, values, heard, after => ∃ index further,
      LoopEndsAt n values index ∧
      heard = (values.get index).val :: further ∧
      Served rest (values.drop (index + 1)) further after

/-- Whatever was rejected before them, the values lead to the result. -/
def Yields (program : Nat → Prog (RandState randMax) β) (loops : List Nat)
    (state : RandState randMax) (heard : List Nat) (result : β) : Prop :=
  ∀ values after, Served loops values heard after →
    ∃ last, AnswersFrom program { state with values := values } result last ∧
      last.values = after

/-- The remainders that `randto` answers. -/
def drawsFrom (loops heard : List Nat) : List Nat :=
  heard.zipWith (· % ·) loops

variable {loops heard : List Nat} {state : RandState randMax}
  {program : Nat → Prog (RandState randMax) β} {result : β}

theorem exists_served (member : heard ∈ heardValues randMax loops) :
    ∃ (values : Stream' (Fin (randMax + 1))) (after : _),
      Served loops values heard after := by
  induction loops generalizing heard with
  | nil =>
      exact ⟨Stream'.const 0, _, Finset.mem_singleton.mp member, rfl⟩
  | cons n rest inductionHypothesis =>
      rcases mem_choices_cons.mp member with ⟨r, further, rfl, below, chosen⟩
      rcases inductionHypothesis chosen with ⟨values, after, served⟩
      have close : r < randMax + 1 :=
        Nat.lt_succ_of_lt (lt_of_lt_of_le below (Nat.div_mul_le_self _ _))
      exact ⟨Stream'.cons ⟨r, close⟩ values, after, 0, further,
        ⟨Nat.one_pos, nofun, Nat.not_le.mpr below⟩, rfl, served⟩

theorem answersFrom_unique {first second : β}
    {before after last : RandState randMax}
    (answered : AnswersFrom program before first after)
    (again : AnswersFrom program before second last) : first = second := by
  rcases answered with ⟨enough, ran⟩
  rcases again with ⟨more, went⟩
  have same := (ran _ (le_max_left enough more)).symm.trans
    (went _ (le_max_right enough more))
  exact Except.ok.inj (Prod.ext_iff.mp same).1

/-- As many choices of values lead to a result as the quotas of the loops
allow for the draws that do. -/
theorem ncard_yields (holds : List Nat → Prop) [DecidablePred holds]
    (decides : ∀ values heard after, Served loops values heard after →
      ∃ answer last,
        AnswersFrom program { state with values := values } answer last ∧
        last.values = after ∧
        (answer = result ↔ holds (drawsFrom loops heard))) :
    {heard | heard ∈ heardValues randMax loops ∧
        Yields program loops state heard result}.ncard =
      (loops.map (randMax / ·)).prod *
        ((choices loops).filter holds).card := by
  have same : {heard | heard ∈ heardValues randMax loops ∧
      Yields program loops state heard result} =
      ((heardValues randMax loops).filter fun heard =>
        holds (drawsFrom loops heard) : Finset _) := by
    ext heard
    rw [Finset.mem_coe, Finset.mem_filter, Set.mem_ofPred_eq]
    refine and_congr_right fun member => ?_
    constructor
    · intro yields
      rcases exists_served member with ⟨values, after, served⟩
      rcases decides values heard after served with
        ⟨answer, last, answers, -, settled⟩
      rcases yields values after served with ⟨other, again, -⟩
      exact settled.mp (answersFrom_unique answers again)
    · intro held values after served
      rcases decides values heard after served with
        ⟨answer, last, answers, rest, settled⟩
      rw [settled.mpr held] at answers
      exact ⟨last, answers, rest⟩
  rw [same, Set.ncard_coe_finset]
  exact @card_choices_mod loops (randMax / ·) holds _

end Loops

/-! ## The order -/

section Order

variable {randMax : Nat} {state : RandState randMax} {x y : Array Int32}
  {n : Nat} {heard : List Nat} {after : Stream' (Fin (randMax + 1))}

theorem shuffleLoops_bounds (n : Nat) : shuffleLoops n = drawBounds n := by
  induction n with
  | zero =>
      rfl
  | succ n inductionHypothesis =>
      rw [shuffleLoops, drawBounds, inductionHypothesis]

theorem swapEntries_ok {j : Nat} (first : n < x.size) (second : j < x.size) :
    swapEntries x n j = .ok (x.swapIfInBounds n j) := by
  rw [swapEntries, dif_pos ⟨first, second⟩, Array.swapIfInBounds_def,
    dif_pos first, dif_pos second]

/-- The rounds exchange what the draws say. -/
theorem shuffleFrom_shuffled (inside : n < x.size)
    (served : Served (shuffleLoops n) state.values heard after) :
    Draws n (drawsFrom (shuffleLoops n) heard) ∧
      AnswersFrom (shuffleFrom · n x) state
        (shuffled n x (drawsFrom (shuffleLoops n) heard))
        { state with values := after } := by
  induction n generalizing x state heard with
  | zero =>
      rcases served with ⟨rfl, rfl⟩
      exact ⟨rfl, .always (pure_from x state)⟩
  | succ n inductionHypothesis =>
      rcases served with ⟨index, further, loop, rfl, rest⟩
      have drawn : AnswersFrom (randto (n + 2)) state _ _ :=
        ⟨index + 1, fun tries enough => randto_from loop enough⟩
      have close : (state.values.get index).val % (n + 2) < n + 2 :=
        Nat.mod_lt _ (Nat.succ_pos _)
      have below : (state.values.get index).val % (n + 2) < x.size := by
        omega
      rcases @inductionHypothesis
          { state with values := state.values.drop (index + 1) }
          (x.swapIfInBounds (n + 1) ((state.values.get index).val % (n + 2)))
          further
          (by
            rw [Array.size_swapIfInBounds]
            exact Nat.lt_of_succ_lt inside) rest with ⟨draws, answers⟩
      refine ⟨⟨Nat.le_of_lt_succ close, draws⟩, ?_⟩
      apply drawn.bind
      apply AnswersFrom.bind (.always (by
        rw [liftExec_from, swapEntries_ok inside below]))
      exact answers

/-- Each order of a table without repetitions is answered for the same number
of choices. -/
theorem shuffleSigned_fair (state : RandState randMax)
    (distinct : x.toList.Nodup) (nonempty : 0 < x.size)
    (order : y.toList.Perm x.toList) :
    {heard | heard ∈ heardValues randMax (shuffleLoops (x.size - 1)) ∧
        Yields (shuffleSigned · x x.size) (shuffleLoops (x.size - 1)) state
          heard y}.ncard =
      ((shuffleLoops (x.size - 1)).map (randMax / ·)).prod := by
  have size : x.size = x.size - 1 + 1 := (Nat.succ_pred nonempty.ne').symm
  rw [ncard_yields fun draws => (shuffled (x.size - 1) x draws).toList =
    y.toList]
  · rw [shuffleLoops_bounds, card_draws distinct size (· = y.toList),
      Finset.filter_eq', if_pos (by
        rw [List.mem_toFinset, List.mem_permutations]
        exact order), Finset.card_singleton, Nat.mul_one]
  · intro values heard after served
    rcases @shuffleFrom_shuffled _ { state with values := values } x _ _ _
        (Nat.sub_lt nonempty Nat.one_pos) served with ⟨-, answers⟩
    exact ⟨_, _, answers, rfl, Array.toList_inj.symm⟩

theorem shuffleSigned_fair_reverse :
    {heard | heard ∈ heardValues 32767 (shuffleLoops (positions8.size - 1)) ∧
        Yields (shuffleSigned · positions8 positions8.size)
          (shuffleLoops (positions8.size - 1))
          (randStart (Stream'.const (0 : Fin 32768))) heard
          positions8.reverse}.ncard =
      ((shuffleLoops (positions8.size - 1)).map (32767 / ·)).prod :=
  shuffleSigned_fair (randStart (Stream'.const (0 : Fin 32768))) (by decide)
    (by decide) (by
      rw [Array.toList_reverse]
      exact List.reverse_perm _)

end Order

/-! ## The bits -/

section Bits

theorem bitsSet_injective (width : Nat) :
    Function.Injective (@bitsSet width) := by
  intro pattern other same
  apply BitVec.eq_of_getLsbD_eq
  intro place _
  rw [Bool.eq_iff_iff, ← mem_bitsSet, ← mem_bitsSet, same]

variable {randMax : Nat} {β : Type} {width : Nat}
  {pattern : β → BitVec width} {put : β → Int32 → β}
  {pos table : Array Int32} {n : Int} {start v : β} {draws : List Nat}

/-- The bits stand at the first places of the shuffled table. -/
theorem shuffled_bits (puts : PutsBits pattern put table)
    (permuted : pos.toList.Perm table.toList) (nonempty : 0 < table.size)
    (inRange : 0 ≤ n ∧ n ≤ table.size) (zero : pattern start = 0)
    (drawn : Draws (table.size - 1) draws) :
    ∃ v, orFirst put (shuffled (table.size - 1) pos draws) n start = .ok v ∧
      bitsSet (pattern v) =
        ((shuffled (table.size - 1) (pos.map placeOf) draws).toList.take
          n.toNat).toFinset := by
  have size : pos.size = table.size := permuted.length_eq
  have inside : table.size - 1 < pos.size := by
    omega
  have whole := (shuffled_perm inside drawn).trans permuted
  have length : (shuffled (table.size - 1) pos draws).size = table.size :=
    whole.length_eq
  rcases orPositions_sets (n := n.toNat) (puts.perm whole) (by omega) start
    with ⟨v, ran, sets⟩
  refine ⟨v, (if_pos inRange.1).trans ran, ?_⟩
  rw [sets, zero, bitsSet_zero, Finset.union_empty,
    ← shuffled_map placeOf inside drawn, Array.toList_map, List.map_take]

/-- The orders that put the bits of a pattern in front. -/
theorem card_draws_bits (distinct : (table.toList.map placeOf).Nodup)
    (places : (table.toList.map placeOf).toFinset = Finset.range width)
    (permuted : pos.toList.Perm table.toList) (nonempty : 0 < table.size)
    (inRange : 0 ≤ n) (bits : ((bitsSet (pattern v)).card : Int) = n) :
    ((choices (drawBounds (table.size - 1))).filter fun draws =>
        ((shuffled (table.size - 1) (pos.map placeOf) draws).toList.take
          n.toNat).toFinset = bitsSet (pattern v)).card =
      n.toNat ! * (table.size - n.toNat)! := by
  have moved : (pos.map placeOf).toList.Perm (table.toList.map placeOf) := by
    rw [Array.toList_map]
    exact permuted.map placeOf
  have size : pos.size = table.size := permuted.length_eq
  have card : (bitsSet (pattern v)).card = n.toNat := by
    omega
  have within : bitsSet (pattern v) ⊆ (pos.map placeOf).toList.toFinset := by
    rw [List.toFinset_eq_of_perm _ _ moved, places]
    exact Finset.filter_subset _ _
  rw [card_draws (moved.nodup_iff.mpr distinct)
      (by rw [Array.size_map]; omega)
      (fun order => (order.take n.toNat).toFinset = bitsSet (pattern v)),
    ← card, card_orders_beginning (moved.nodup_iff.mpr distinct) within,
    Array.length_toList, Array.size_map, size]

/-- A function that shuffles a table and joins the bits at its first
places. -/
theorem bits_fair {ρ : Type} {state : RandState randMax}
    {program : Nat → Prog (RandState randMax) ρ} {wrap : β → ρ}
    (puts : PutsBits pattern put table)
    (injective : Function.Injective pattern)
    (wraps : Function.Injective wrap)
    (distinct : (table.toList.map placeOf).Nodup)
    (places : (table.toList.map placeOf).toFinset = Finset.range width)
    (permuted : pos.toList.Perm table.toList) (nonempty : 0 < table.size)
    (inRange : 0 ≤ n ∧ n ≤ table.size) (zero : pattern start = 0)
    (runs : ∀ values after shuffled v,
      AnswersFrom (shuffleSigned · pos table.size)
        { state with values := values } shuffled
        { state with values := after } →
      orFirst put shuffled n start = .ok v →
      ∃ last,
        AnswersFrom program { state with values := values } (wrap v) last ∧
        last.values = after)
    (bits : ((bitsSet (pattern v)).card : Int) = n) :
    {heard | heard ∈ heardValues randMax (shuffleLoops (table.size - 1)) ∧
        Yields program (shuffleLoops (table.size - 1)) state heard
          (wrap v)}.ncard =
      ((shuffleLoops (table.size - 1)).map (randMax / ·)).prod *
        (n.toNat ! * (table.size - n.toNat)!) := by
  rw [ncard_yields fun draws =>
    ((shuffled (table.size - 1) (pos.map placeOf) draws).toList.take
      n.toNat).toFinset = bitsSet (pattern v)]
  · rw [← card_draws_bits distinct places permuted nonempty inRange.1 bits,
      shuffleLoops_bounds]
  · intro values heard after served
    have size : pos.size = table.size := permuted.length_eq
    rcases @shuffleFrom_shuffled _ { state with values := values } pos _ _ _
        (by omega) served with ⟨drawn, shuffles⟩
    rcases shuffled_bits puts permuted nonempty inRange zero drawn with
      ⟨w, ran, sets⟩
    rcases runs values after _ w shuffles ran with ⟨last, answers, rest⟩
    refine ⟨wrap w, last, answers, rest, ?_⟩
    constructor
    · intro same
      rw [← wraps same]
      exact sets.symm
    · intro same
      exact congrArg wrap
        (injective (bitsSet_injective width (sets.trans same)))

end Bits

/-! ## The calls -/

section Calls

variable {randMax : Nat} {state : RandState randMax} {call : RandCall}
  {result : RandResult}

/-- The bits of what a call returns. -/
def RandCall.width : RandCall → Nat
  | .nrand32 _ => 32
  | .nrand8T _ => 8

/-- The number of bits asked for. -/
def RandCall.count : RandCall → Nat
  | .nrand32 n => n.toNat
  | .nrand8T n => n.toNat

/-- Every pattern with as many bits as were asked for is answered for the same
number of choices. -/
theorem randCall_fair (permuted : state.Permuted) (inRange : call.InRange)
    (answers : call.Answers result) :
    {heard | heard ∈ heardValues randMax call.loops ∧
        Yields (call.run ·) call.loops state heard result}.ncard =
      (call.loops.map (randMax / ·)).prod *
        (call.count ! * (call.width - call.count)!) := by
  cases call with
  | nrand32 n =>
      cases result with
      | int8 v =>
          exact answers.elim
      | int32 v =>
          apply bits_fair nrand32_puts (fun _ _ => Int32.toBitVec_inj.mp)
            (fun _ _ => RandResult.int32.inj) positions32_distinct (by decide)
            permuted.pos32 (by decide) inRange Int32.toBitVec_zero ?_ answers
          intro values after shuffled v shuffles ran
          refine ⟨⟨shuffled, state.pos8, after⟩, ?_, rfl⟩
          apply AnswersFrom.bind _ (.always (pure_from _ _))
          apply AnswersFrom.bind (.always (getState_from _))
          apply AnswersFrom.bind shuffles
          apply AnswersFrom.bind (.always (modifyState_from _ _))
          apply AnswersFrom.always
          rw [liftExec_from, ran]
  | nrand8T n =>
      cases result with
      | int32 v =>
          exact answers.elim
      | int8 v =>
          apply bits_fair nrand8T_puts (fun _ _ => Int8.toBitVec_inj.mp)
            (fun _ _ => RandResult.int8.inj) positions8_distinct (by decide)
            permuted.pos8 (by decide) inRange Int8.toBitVec_zero ?_ answers
          intro values after shuffled v shuffles ran
          refine ⟨⟨state.pos32, shuffled, after⟩, ?_, rfl⟩
          apply AnswersFrom.bind _ (.always (pure_from _ _))
          apply AnswersFrom.bind (.always (getState_from _))
          apply AnswersFrom.bind shuffles
          apply AnswersFrom.bind (.always (modifyState_from _ _))
          apply AnswersFrom.always
          rw [liftExec_from, ran]

theorem randCall_fair_three :
    {heard | heard ∈ heardValues 32767 (shuffleLoops 7) ∧
        Yields ((RandCall.nrand8T 3).run ·) (shuffleLoops 7)
          (randStart (Stream'.const (0 : Fin 32768))) heard (.int8 7)}.ncard =
      ((shuffleLoops 7).map (32767 / ·)).prod * (3 ! * (8 - 3)!) :=
  @randCall_fair _ _ (.nrand8T 3) _ (randStart_permuted _)
    ⟨by decide, by decide⟩ (by decide : ((bitsSet (7 : Int8).toBitVec).card :
      Int) = 3)

end Calls

end UvgTorrent
