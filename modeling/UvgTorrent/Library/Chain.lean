import Mathlib.Algebra.Order.Ring.Int

/-!
# Chains of cells

A memory maps an address to the value of the cell there and to the address
of the next cell.  A chain is the cells met from a first address until there
is no next one.
-/

namespace LinkedChain

variable {Address Value : Type}

/-- The cells met from `first` on. -/
def Chain (load : Address → Option (Value × Option Address)) :
    Option Address → List (Address × Value) → Prop
  | first, [] => first = none
  | first, (address, value) :: rest =>
      first = some address ∧
        ∃ next, load address = some (value, next) ∧ Chain load next rest

variable {load other : Address → Option (Value × Option Address)}
  {first : Option Address} {cells : List (Address × Value)}

theorem chain_nil : Chain load none [] :=
  rfl

theorem Chain.cons {address : Address} {value : Value}
    {next : Option Address} (here : load address = some (value, next))
    (rest : Chain load next cells) :
    Chain load (some address) ((address, value) :: cells) :=
  ⟨rfl, next, here, rest⟩

theorem Chain.first_eq (chain : Chain load first cells) :
    first = cells.head?.map Prod.fst := by
  cases cells with
  | nil =>
      exact chain
  | cons cell rest =>
      exact chain.1

theorem Chain.eq_nil (chain : Chain load none cells) : cells = [] := by
  cases cells with
  | nil =>
      rfl
  | cons cell rest =>
      cases chain.1

/-- A chain is determined by its first address. -/
theorem Chain.unique {others : List (Address × Value)}
    (chain : Chain load first cells) (same : Chain load first others) :
    cells = others := by
  induction cells generalizing first others with
  | nil =>
      cases chain
      exact same.eq_nil.symm
  | cons cell rest inductionHypothesis =>
      rcases chain with ⟨rfl, next, here, further⟩
      cases others with
      | nil =>
          cases same
      | cons head tail =>
          rcases same with ⟨sameFirst, sameNext, there, behind⟩
          have sameAddress : cell.1 = head.1 := Option.some.inj sameFirst
          rw [sameAddress, there] at here
          injection here with sameCell
          injection sameCell with sameValue sameNext
          subst sameNext
          rw [inductionHypothesis further behind]
          congr 1
          exact Prod.ext sameAddress sameValue.symm

/-- Every cell of a chain starts a chain of its own. -/
theorem Chain.from_member {cell : Address × Value}
    {before after : List (Address × Value)}
    (chain : Chain load first (before ++ cell :: after)) :
    Chain load (some cell.1) (cell :: after) := by
  induction before generalizing first with
  | nil =>
      rcases chain with ⟨_, next, here, further⟩
      exact ⟨rfl, next, here, further⟩
  | cons head before inductionHypothesis =>
      rcases chain with ⟨_, next, _, further⟩
      exact inductionHypothesis further

theorem Chain.load_member (chain : Chain load first cells)
    {cell : Address × Value} (member : cell ∈ cells) :
    ∃ next, load cell.1 = some (cell.2, next) := by
  rcases List.append_of_mem member with ⟨before, after, rfl⟩
  rcases chain.from_member with ⟨_, next, here, _⟩
  exact ⟨next, here⟩

/-- No address is met twice. -/
theorem Chain.nodup (chain : Chain load first cells) :
    (cells.map Prod.fst).Nodup := by
  induction cells generalizing first with
  | nil =>
      exact List.nodup_nil
  | cons cell rest inductionHypothesis =>
      have whole := @Chain.from_member _ _ _ _ _ [] rest chain
      rcases chain with ⟨_, next, _, further⟩
      apply List.nodup_cons.mpr
      refine ⟨?_, inductionHypothesis further⟩
      intro again
      rcases List.mem_map.mp again with ⟨twin, member, sameAddress⟩
      rcases List.append_of_mem member with ⟨before, after, rfl⟩
      have shorter := further.from_member
      rw [sameAddress] at shorter
      have lengths := congrArg List.length (whole.unique shorter)
      simp only [List.length_cons, List.length_append] at lengths
      omega

/-- A chain survives every change outside its cells. -/
theorem Chain.frame (chain : Chain load first cells)
    (unchanged : ∀ cell ∈ cells, other cell.1 = load cell.1) :
    Chain other first cells := by
  induction cells generalizing first with
  | nil =>
      exact chain
  | cons cell rest inductionHypothesis =>
      rcases chain with ⟨isFirst, next, here, further⟩
      refine ⟨isFirst, next, ?_, ?_⟩
      · rw [unchanged cell List.mem_cons_self]
        exact here
      · apply inductionHypothesis further
        intro later member
        exact unchanged later (List.mem_cons_of_mem cell member)

/-- Linking a new cell behind the last one makes the chain one longer. -/
theorem Chain.snoc {last fresh : Address} {value added : Value}
    (chain : Chain load first (cells ++ [(last, value)]))
    (linked : other last = some (value, some fresh))
    (placed : other fresh = some (added, none))
    (unchanged : ∀ cell ∈ cells, other cell.1 = load cell.1) :
    Chain other first (cells ++ [(last, value), (fresh, added)]) := by
  induction cells generalizing first with
  | nil =>
      exact ⟨chain.1, some fresh, linked, .cons placed chain_nil⟩
  | cons cell rest inductionHypothesis =>
      rcases chain with ⟨isFirst, next, here, further⟩
      refine ⟨isFirst, next, ?_, ?_⟩
      · rw [unchanged cell List.mem_cons_self]
        exact here
      · apply inductionHypothesis further
        intro later member
        exact unchanged later (List.mem_cons_of_mem cell member)

/-- Storing another value into a cell leaves the links alone. -/
theorem Chain.update {address : Address} {value added : Value}
    {next : Option Address} {before after : List (Address × Value)}
    (chain : Chain load first (before ++ (address, value) :: after))
    (here : load address = some (value, next))
    (changed : other address = some (added, next))
    (unchanged : ∀ cell ∈ before ++ after, other cell.1 = load cell.1) :
    Chain other first (before ++ (address, added) :: after) := by
  induction before generalizing first with
  | nil =>
      rcases chain with ⟨isFirst, following, found, further⟩
      cases here.symm.trans found
      exact ⟨isFirst, next, changed, further.frame unchanged⟩
  | cons head before inductionHypothesis =>
      rcases chain with ⟨isFirst, following, found, further⟩
      refine ⟨isFirst, following, ?_, inductionHypothesis further ?_⟩
      · rw [unchanged head List.mem_cons_self]
        exact found
      · intro cell member
        exact unchanged cell (List.mem_cons_of_mem head member)

end LinkedChain
