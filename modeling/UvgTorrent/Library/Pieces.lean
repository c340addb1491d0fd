import Mathlib.Algebra.Order.Ring.Int

/-!
# Pieces between delimiters

What `List.splitOn` says of the pieces of a list, besides that they join to
the list again.
-/

namespace ListPieces

theorem exists_three {α : Type} {items : List α}
    (enough : 2 < items.length) :
    ∃ first second third rest,
      items = first :: second :: third :: rest := by
  match items, enough with
  | first :: second :: third :: rest, _ =>
      exact ⟨first, second, third, rest, rfl⟩

/-- What joined pieces are made of. -/
theorem mem_intercalate {α : Type} {separator : List α}
    {pieces : List (List α)} {item : α}
    (member : item ∈ separator.intercalate pieces) :
    item ∈ separator ∨ ∃ piece ∈ pieces, item ∈ piece := by
  induction pieces with
  | nil =>
      exact absurd member List.not_mem_nil
  | cons first rest inductionHypothesis =>
      cases rest with
      | nil =>
          rw [List.intercalate_singleton] at member
          exact .inr ⟨first, List.mem_cons_self, member⟩
      | cons second rest =>
          rw [List.intercalate_cons_cons, List.mem_append,
            List.mem_append] at member
          rcases member with (inFirst | between) | behind
          · exact .inr ⟨first, List.mem_cons_self, inFirst⟩
          · exact .inl between
          · rcases inductionHypothesis behind with between | further
            · exact .inl between
            · rcases further with ⟨piece, among, inside⟩
              exact .inr ⟨piece, List.mem_cons_of_mem first among, inside⟩

variable {α : Type} [BEq α] [LawfulBEq α] {items piece : List α}
  {delimeter : α}

/-- A piece is made of items of the list other than the delimiter. -/
theorem mem_splitOn (member : piece ∈ items.splitOn delimeter) :
    delimeter ∉ piece ∧ List.Sublist piece items := by
  induction items generalizing piece with
  | nil =>
      rw [List.splitOn_nil, List.mem_singleton] at member
      rw [member]
      exact ⟨List.not_mem_nil, List.Sublist.slnil⟩
  | cons item items inductionHypothesis =>
      rw [List.splitOn_cons_eq_if_modifyHead] at member
      by_cases isDelimeter : item = delimeter
      · rw [if_pos (beq_iff_eq.mpr isDelimeter), List.mem_cons] at member
        rcases member with rfl | further
        · exact ⟨List.not_mem_nil, List.nil_sublist _⟩
        · have facts := inductionHypothesis further
          exact ⟨facts.1, facts.2.cons item⟩
      · rw [if_neg (mt beq_iff_eq.mp isDelimeter)] at member
        cases pieces : items.splitOn delimeter with
        | nil =>
            exact absurd pieces (List.splitOn_ne_nil _ _)
        | cons first rest =>
            rw [pieces] at member inductionHypothesis
            rcases List.mem_cons.mp member with rfl | further
            · have facts := inductionHypothesis List.mem_cons_self
              refine ⟨?_, facts.2.cons_cons item⟩
              rw [List.mem_cons, not_or]
              exact ⟨Ne.symm isDelimeter, facts.1⟩
            · have facts := inductionHypothesis
                (List.mem_cons_of_mem first further)
              exact ⟨facts.1, facts.2.cons item⟩

/-- There is one piece more than there are delimiters. -/
theorem length_splitOn (items : List α) (delimeter : α) :
    (items.splitOn delimeter).length = items.count delimeter + 1 := by
  induction items with
  | nil =>
      rfl
  | cons item items inductionHypothesis =>
      rw [List.splitOn_cons_eq_if_modifyHead, List.count_cons]
      by_cases isDelimeter : item = delimeter
      · have same : (item == delimeter) = true := beq_iff_eq.mpr isDelimeter
        rw [if_pos same, if_pos same, List.length_cons, inductionHypothesis]
      · have other := mt beq_iff_eq.mp isDelimeter
        rw [if_neg other, if_neg other, List.length_modifyHead,
          inductionHypothesis, Nat.add_zero]

/-- A front without delimiters is part of one piece. -/
theorem exists_long_piece {front : List α} (rest : List α)
    (free : delimeter ∉ front) :
    ∃ piece ∈ (front ++ rest).splitOn delimeter,
      front.length ≤ piece.length := by
  induction rest generalizing front with
  | nil =>
      rw [List.append_nil, List.splitOn_eq_singleton free]
      exact ⟨front, List.mem_singleton_self front, Nat.le_refl _⟩
  | cons item rest inductionHypothesis =>
      by_cases isDelimeter : item = delimeter
      · rw [isDelimeter, List.splitOn_append_cons_self,
          List.splitOn_eq_singleton free]
        exact ⟨front, List.mem_cons_self, Nat.le_refl _⟩
      · have longer : delimeter ∉ front ++ [item] := by
          rw [List.mem_append, not_or]
          exact ⟨free, mt List.mem_singleton.mp (Ne.symm isDelimeter)⟩
        rcases inductionHypothesis longer with ⟨piece, member, bound⟩
        rw [List.append_assoc] at member
        rw [List.length_append] at bound
        exact ⟨piece, member, Nat.le_of_add_right_le bound⟩

end ListPieces
