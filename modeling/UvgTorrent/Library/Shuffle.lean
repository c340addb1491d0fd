import Mathlib.Algebra.BigOperators.Intervals
import Mathlib.Algebra.BigOperators.Ring.Finset
import Mathlib.Data.Finset.Prod
import Mathlib.Data.List.Permutation

/-!
# Shuffles by exchanges

From the last position down to the second, an entry changes places with one
that is not behind it.  The draws say with which.  Every order of a table
comes from one list of draws.
-/

namespace Shuffle

open scoped Nat

variable {α : Type}

/-- A draw for each position from `n` down to one. -/
def Draws : Nat → List Nat → Prop
  | 0, draws => draws = []
  | _ + 1, [] => False
  | n + 1, j :: draws => j ≤ n + 1 ∧ Draws n draws

/-- The table after the exchanges. -/
def shuffled : Nat → Array α → List Nat → Array α
  | n + 1, x, j :: draws => shuffled n (x.swapIfInBounds (n + 1) j) draws
  | _, x, _ => x

/-- The lists of one number below each bound. -/
def choices : List Nat → Finset (List Nat)
  | [] => {[]}
  | bound :: bounds => (Finset.range bound ×ˢ choices bounds).image
      fun choice => choice.1 :: choice.2

/-- What the draws stay below. -/
def drawBounds : Nat → List Nat
  | 0 => []
  | n + 1 => (n + 2) :: drawBounds n

theorem mem_choices_cons {bound : Nat} {bounds choice : List Nat} :
    choice ∈ choices (bound :: bounds) ↔
      ∃ j rest, choice = j :: rest ∧ j < bound ∧ rest ∈ choices bounds := by
  rw [choices, Finset.mem_image]
  constructor
  · rintro ⟨⟨j, rest⟩, chosen, rfl⟩
    rw [Finset.mem_product, Finset.mem_range] at chosen
    exact ⟨j, rest, rfl, chosen⟩
  · rintro ⟨j, rest, rfl, below, chosen⟩
    refine ⟨(j, rest), ?_, rfl⟩
    rw [Finset.mem_product, Finset.mem_range]
    exact ⟨below, chosen⟩

theorem mem_choices_drawBounds {n : Nat} {draws : List Nat} :
    draws ∈ choices (drawBounds n) ↔ Draws n draws := by
  induction n generalizing draws with
  | zero =>
      exact Finset.mem_singleton
  | succ n inductionHypothesis =>
      rw [drawBounds, mem_choices_cons]
      constructor
      · rintro ⟨j, rest, rfl, below, chosen⟩
        exact ⟨Nat.le_of_lt_succ below, inductionHypothesis.mp chosen⟩
      · intro drawn
        cases draws with
        | nil =>
            exact drawn.elim
        | cons j rest =>
            exact ⟨j, rest, rfl, Nat.lt_succ_of_le drawn.1,
              inductionHypothesis.mpr drawn.2⟩

section Orders

variable {x y : Array α} {n i j : Nat} {draws others : List Nat}

theorem exchanged (first : i < x.size) (second : j < x.size) (k : Nat) :
    (x.swapIfInBounds i j)[k]? =
      if j = k then x[i]? else if i = k then x[j]? else x[k]? := by
  rw [Array.swapIfInBounds_def, dif_pos first, dif_pos second,
    Array.getElem?_swap, Array.getElem?_eq_getElem first,
    Array.getElem?_eq_getElem second]

theorem exchanged_perm (first : i < x.size) (second : j < x.size) :
    (x.swapIfInBounds i j).toList.Perm x.toList := by
  rw [Array.swapIfInBounds_def, dif_pos first, dif_pos second]
  exact (Array.swap_perm first second).toList

theorem shuffled_perm (inside : n < x.size) (drawn : Draws n draws) :
    (shuffled n x draws).toList.Perm x.toList := by
  induction n generalizing x draws with
  | zero =>
      rw [shuffled.eq_def]
  | succ n inductionHypothesis =>
      cases draws with
      | nil =>
          exact drawn.elim
      | cons j rest =>
          have second : j < x.size := Nat.lt_of_le_of_lt drawn.1 inside
          refine (inductionHypothesis ?_ drawn.2).trans
            (exchanged_perm inside second)
          rw [Array.size_swapIfInBounds]
          exact Nat.lt_of_succ_lt inside

/-- The entries behind the first position that is drawn for stay. -/
theorem shuffled_behind (inside : n < x.size) (drawn : Draws n draws)
    {position : Nat} (behind : n < position) :
    (shuffled n x draws)[position]? = x[position]? := by
  induction n generalizing x draws with
  | zero =>
      rw [shuffled.eq_def]
  | succ n inductionHypothesis =>
      cases draws with
      | nil =>
          exact drawn.elim
      | cons j rest =>
          have close : j ≤ n + 1 := drawn.1
          have second : j < x.size := Nat.lt_of_le_of_lt close inside
          rw [shuffled, inductionHypothesis (by
            rw [Array.size_swapIfInBounds]
            exact Nat.lt_of_succ_lt inside) drawn.2
              (Nat.lt_of_succ_lt behind),
            exchanged inside second, if_neg (by omega), if_neg (by omega)]

/-- What the entries are does not matter to the exchanges. -/
theorem shuffled_map {β : Type} (f : α → β) (inside : n < x.size)
    (drawn : Draws n draws) :
    (shuffled n x draws).map f = shuffled n (x.map f) draws := by
  induction n generalizing x draws with
  | zero =>
      rw [shuffled.eq_def, shuffled.eq_def]
  | succ n inductionHypothesis =>
      cases draws with
      | nil =>
          exact drawn.elim
      | cons j rest =>
          have second : j < x.size := Nat.lt_of_le_of_lt drawn.1 inside
          have smaller : n < (x.swapIfInBounds (n + 1) j).size := by
            rw [Array.size_swapIfInBounds]
            exact Nat.lt_of_succ_lt inside
          rw [shuffled, shuffled, inductionHypothesis smaller drawn.2]
          congr 1
          apply Array.ext_getElem?
          intro position
          rw [Array.getElem?_map, exchanged inside second,
            exchanged (by rwa [Array.size_map]) (by rwa [Array.size_map]),
            Array.getElem?_map, Array.getElem?_map, Array.getElem?_map,
            apply_ite (Option.map f), apply_ite (Option.map f)]

theorem getElem?_inj_of_nodup (distinct : x.toList.Nodup)
    (first : i < x.size) (same : x[i]? = x[j]?) : i = j := by
  rw [← Array.getElem?_toList, ← Array.getElem?_toList] at same
  exact (List.getElem?_inj first distinct).mp same

/-- The last entry tells the first draw. -/
theorem shuffled_last (inside : n + 1 < x.size)
    (drawn : Draws (n + 1) (j :: draws)) :
    (shuffled (n + 1) x (j :: draws))[n + 1]? = x[j]? := by
  have second : j < x.size := Nat.lt_of_le_of_lt drawn.1 inside
  rw [shuffled, shuffled_behind (by
      rw [Array.size_swapIfInBounds]
      exact Nat.lt_of_succ_lt inside) drawn.2 (Nat.lt_succ_self n),
    exchanged inside second]
  split
  · rename_i same
    rw [same]
  · rw [if_pos rfl]

theorem draws_unique (distinct : x.toList.Nodup) (inside : n < x.size)
    (drawn : Draws n draws) (also : Draws n others)
    (same : shuffled n x draws = shuffled n x others) :
    draws = others := by
  induction n generalizing x draws others with
  | zero =>
      exact Eq.trans drawn (Eq.symm also)
  | succ n inductionHypothesis =>
      cases draws with
      | nil =>
          exact drawn.elim
      | cons j rest =>
          cases others with
          | nil =>
              exact also.elim
          | cons k further =>
              have second : j < x.size := Nat.lt_of_le_of_lt drawn.1 inside
              have last : x[j]? = x[k]? := by
                rw [← shuffled_last inside drawn, same,
                  shuffled_last inside also]
              have head := getElem?_inj_of_nodup distinct second last
              subst head
              congr 1
              refine inductionHypothesis ?_ ?_ drawn.2 also.2 same
              · exact (exchanged_perm inside second).nodup_iff.mpr distinct
              · rw [Array.size_swapIfInBounds]
                exact Nat.lt_of_succ_lt inside

/-- Two orders that agree behind the first entry are the same. -/
theorem eq_of_agree (distinct : x.toList.Nodup) (nonempty : 0 < x.size)
    (order : y.toList.Perm x.toList)
    (agree : ∀ position, 0 < position → y[position]? = x[position]?) :
    y = x := by
  have size : y.size = x.size := order.length_eq
  have first : y[0]? = x[0]? := by
    have there := Array.getElem?_eq_getElem (lt_of_lt_of_eq nonempty size.symm)
    have member : y[0] ∈ x.toList :=
      order.mem_iff.mp (Array.getElem_mem_toList _)
    rcases List.mem_iff_getElem?.mp member with ⟨k, found⟩
    rw [Array.getElem?_toList] at found
    rcases Nat.eq_zero_or_pos k with rfl | behind
    · rw [there, found]
    · have again : y[0]? = y[k]? := by
        rw [there, agree k behind, found]
      have zero := getElem?_inj_of_nodup (order.nodup_iff.mpr distinct)
        (lt_of_lt_of_eq nonempty size.symm) again
      exact absurd zero.symm (Nat.ne_of_gt behind)
  apply Array.ext_getElem?
  intro position
  rcases Nat.eq_zero_or_pos position with rfl | behind
  · exact first
  · exact agree position behind

theorem draws_exist (distinct : x.toList.Nodup) (inside : n < x.size)
    (order : y.toList.Perm x.toList)
    (agree : ∀ position, n < position → y[position]? = x[position]?) :
    ∃ draws, Draws n draws ∧ shuffled n x draws = y := by
  induction n generalizing x with
  | zero =>
      refine ⟨[], rfl, ?_⟩
      rw [shuffled.eq_def]
      exact (eq_of_agree distinct inside order agree).symm
  | succ n inductionHypothesis =>
      have size : y.size = x.size := order.length_eq
      have insideY : n + 1 < y.size := lt_of_lt_of_eq inside size.symm
      have there := Array.getElem?_eq_getElem insideY
      have member : y[n + 1] ∈ x.toList :=
        order.mem_iff.mp (Array.getElem_mem_toList _)
      rcases List.mem_iff_getElem?.mp member with ⟨j, found⟩
      rw [Array.getElem?_toList] at found
      have close : j ≤ n + 1 := by
        by_contra far
        have again : y[n + 1]? = y[j]? := by
          rw [there, agree j (Nat.lt_of_not_le far), found]
        exact far (getElem?_inj_of_nodup (order.nodup_iff.mpr distinct)
          insideY again).ge
      have second : j < x.size := Nat.lt_of_le_of_lt close inside
      have exchange := exchanged_perm inside second
      rcases @inductionHypothesis (x.swapIfInBounds (n + 1) j)
          (exchange.nodup_iff.mpr distinct)
          (by
            rw [Array.size_swapIfInBounds]
            exact Nat.lt_of_succ_lt inside)
          (order.trans exchange.symm)
          (by
            intro position behind
            rw [exchanged inside second]
            split
            · rename_i same
              have last : position = n + 1 := by omega
              rw [last, there, ← found, same, last]
            · split
              · rename_i last
                rw [← last, there, found]
              · exact agree position (by omega)) with
        ⟨draws, drawn, reached⟩
      exact ⟨j :: draws, ⟨close, drawn⟩, reached⟩

/-- Every order of a table without repetitions is reached in one way. -/
theorem draws_existUnique (distinct : x.toList.Nodup)
    (size : x.size = n + 1) (order : y.toList.Perm x.toList) :
    ∃! draws, Draws n draws ∧ shuffled n x draws = y := by
  have inside : n < x.size := by
    omega
  have agree : ∀ position, n < position → y[position]? = x[position]? := by
    intro position behind
    have sizes : y.size = x.size := order.length_eq
    rw [Array.getElem?_eq_none (by omega), Array.getElem?_eq_none (by omega)]
  rcases draws_exist distinct inside order agree with
    ⟨draws, drawn, reached⟩
  refine ⟨draws, ⟨drawn, reached⟩, ?_⟩
  rintro others ⟨also, reachedToo⟩
  exact draws_unique distinct inside also drawn
    (reachedToo.trans reached.symm)

end Orders

/-! ## Counting -/

section Rejection

variable {bounds : List Nat} {quota : Nat → Nat}

theorem sum_range_mul_mod (q n : Nat) (f : Nat → Nat) :
    ∑ r ∈ Finset.range (q * n), f (r % n) =
      q * ∑ j ∈ Finset.range n, f j := by
  induction q with
  | zero =>
      rw [Nat.zero_mul, Nat.zero_mul, Finset.range_zero, Finset.sum_empty]
  | succ q inductionHypothesis =>
      rw [Nat.succ_mul, Finset.sum_range_add, inductionHypothesis,
        Nat.succ_mul]
      congr 1
      refine Finset.sum_congr rfl fun j member => ?_
      rw [Nat.mul_add_mod_self_right,
        Nat.mod_eq_of_lt (Finset.mem_range.mp member)]

theorem card_choices_cons (bound : Nat) (holds : List Nat → Prop)
    [DecidablePred holds] :
    ((choices (bound :: bounds)).filter holds).card =
      ∑ j ∈ Finset.range bound,
        ((choices bounds).filter fun rest => holds (j :: rest)).card := by
  have apart : Set.InjOn (fun choice : Nat × List Nat => choice.1 :: choice.2)
      (Finset.range bound ×ˢ choices bounds : Finset _) := by
    intro choice _ other _ same
    rcases List.cons.inj same with ⟨first, rest⟩
    exact Prod.ext first rest
  simp only [Finset.card_filter]
  rw [choices, Finset.sum_image apart, Finset.sum_product]

/-- Each choice of remainders comes from equally many choices of numbers, when
these stay below a multiple of the bound. -/
theorem card_choices_mod (holds : List Nat → Prop) [DecidablePred holds] :
    ((choices (bounds.map fun bound => quota bound * bound)).filter
        fun numbers => holds (numbers.zipWith (· % ·) bounds)).card =
      (bounds.map quota).prod * ((choices bounds).filter holds).card := by
  induction bounds generalizing holds with
  | nil =>
      rw [List.map_nil, List.map_nil, List.prod_nil, Nat.one_mul]
      rfl
  | cons bound bounds inductionHypothesis =>
      rw [List.map_cons, card_choices_cons, List.map_cons, List.prod_cons,
        card_choices_cons]
      have each := Finset.sum_congr (rfl :
          Finset.range (quota bound * bound) = _) fun r _ =>
        inductionHypothesis fun rest => holds (r % bound :: rest)
      refine each.trans ?_
      rw [sum_range_mul_mod (quota bound) bound fun j =>
          (bounds.map quota).prod *
            ((choices bounds).filter fun rest => holds (j :: rest)).card,
        ← Finset.mul_sum, Nat.mul_assoc]

end Rejection

section Counting

variable [DecidableEq α] {x : Array α} {n : Nat}

/-- As many draws lead to a kind of order as there are such orders. -/
theorem card_draws (distinct : x.toList.Nodup) (size : x.size = n + 1)
    (holds : List α → Prop) [DecidablePred holds] :
    ((choices (drawBounds n)).filter fun draws =>
        holds (shuffled n x draws).toList).card =
      (x.toList.permutations.toFinset.filter holds).card := by
  have inside : n < x.size := by
    omega
  apply Finset.card_bij fun draws _ => (shuffled n x draws).toList
  · intro draws member
    rw [Finset.mem_filter, mem_choices_drawBounds] at member
    rw [Finset.mem_filter, List.mem_toFinset, List.mem_permutations]
    exact ⟨shuffled_perm inside member.1, member.2⟩
  · intro draws member others also same
    rw [Finset.mem_filter, mem_choices_drawBounds] at member also
    exact draws_unique distinct inside member.1 also.1
      (Array.toList_inj.mp same)
  · intro order member
    rw [Finset.mem_filter, List.mem_toFinset, List.mem_permutations] at member
    rcases draws_existUnique (y := order.toArray) distinct size member.1 with
      ⟨draws, ⟨drawn, reached⟩, -⟩
    refine ⟨draws, ?_, congrArg Array.toList reached⟩
    rw [Finset.mem_filter, mem_choices_drawBounds, reached]
    exact ⟨drawn, member.2⟩

/-- The orders that begin with the chosen items: these in any order, and the
others behind them in any order. -/
theorem card_orders_beginning {items : List α} (distinct : items.Nodup)
    {chosen : Finset α} (inside : chosen ⊆ items.toFinset) :
    (items.permutations.toFinset.filter fun order =>
        (order.take chosen.card).toFinset = chosen).card =
      chosen.card ! * (items.length - chosen.card)! := by
  let front := chosen.toList
  let back := items.filter fun item => item ∉ chosen
  have frontNodup : front.Nodup := chosen.nodup_toList
  have backNodup : back.Nodup := distinct.filter _
  have split : items.Perm (front ++ back) := by
    rw [List.perm_ext_iff_of_nodup distinct]
    · intro item
      simp only [front, back, List.mem_append, Finset.mem_toList,
        List.mem_filter, decide_eq_true_eq]
      have known := @inside item
      rw [List.mem_toFinset] at known
      tauto
    · refine List.nodup_append.mpr ⟨frontNodup, backNodup, ?_⟩
      rintro item inFront _ inBack rfl
      simp only [back, List.mem_filter, decide_eq_true_eq] at inBack
      exact inBack.2 (Finset.mem_toList.mp inFront)
  have lengths : items.length - chosen.card = back.length := by
    rw [split.length_eq, List.length_append, Finset.length_toList,
      Nat.add_sub_cancel_left]
  have cards : chosen.card ! * (items.length - chosen.card)! =
      (front.permutations.toFinset ×ˢ back.permutations.toFinset).card := by
    rw [Finset.card_product,
      List.toFinset_card_of_nodup (List.nodup_permutations _ frontNodup),
      List.toFinset_card_of_nodup (List.nodup_permutations _ backNodup),
      List.length_permutations, List.length_permutations,
      Finset.length_toList, lengths]
  rw [cards, eq_comm]
  apply Finset.card_bij fun parts _ => parts.1 ++ parts.2
  · rintro ⟨first, second⟩ member
    rw [Finset.mem_product, List.mem_toFinset, List.mem_toFinset,
      List.mem_permutations, List.mem_permutations] at member
    have length : first.length = chosen.card := by
      rw [member.1.length_eq, Finset.length_toList]
    rw [Finset.mem_filter, List.mem_toFinset, List.mem_permutations,
      ← length, List.take_left]
    refine ⟨(member.1.append member.2).trans split.symm, ?_⟩
    rw [List.toFinset_eq_of_perm _ _ member.1, Finset.toList_toFinset]
  · rintro ⟨first, second⟩ member ⟨other, further⟩ also same
    rw [Finset.mem_product, List.mem_toFinset, List.mem_toFinset,
      List.mem_permutations, List.mem_permutations] at member also
    have length : first.length = other.length := by
      rw [member.1.length_eq, also.1.length_eq]
    rcases List.append_inj same length with ⟨rfl, rfl⟩
    rfl
  · intro order member
    rw [Finset.mem_filter, List.mem_toFinset, List.mem_permutations] at member
    have orderNodup : order.Nodup := member.1.nodup_iff.mpr distinct
    have halves := List.take_append_drop chosen.card order
    have first : (order.take chosen.card).Perm front := by
      rw [List.perm_ext_iff_of_nodup
        (orderNodup.sublist (List.take_sublist _ _)) frontNodup]
      intro item
      rw [← List.mem_toFinset, member.2, Finset.mem_toList]
    have second : (order.drop chosen.card).Perm back := by
      have whole : (order.take chosen.card ++ order.drop chosen.card).Perm
          (front ++ back) := by
        rw [halves]
        exact member.1.trans split
      exact (List.perm_append_left_iff front).mp
        ((first.symm.append_right _).trans whole)
    refine ⟨(order.take chosen.card, order.drop chosen.card), ?_, halves⟩
    rw [Finset.mem_product, List.mem_toFinset, List.mem_toFinset,
      List.mem_permutations, List.mem_permutations]
    exact ⟨first, second⟩

end Counting

end Shuffle
