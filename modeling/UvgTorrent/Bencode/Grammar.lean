import UvgTorrent.Bencode.Cursor

/-!
# The grammar of the inputs the reader survives

`Reads memory task result` says, of the bytes alone, what the reader makes
of an item without leaving the block.  A task is a value, the rest of a
dictionary or the rest of a list; `result` is the position behind it, or
`none` where the reader gives up.

Every task carries `last`, the end of the window its reader believes in.  A
container at `position` that was opened at `start` hands the window
`last + (position - start)` to its next value: the length is counted from
the cursor and not from the start, so the window grows with every entry.
-/

namespace UvgTorrent

open CProgram CText

section Grammar

variable (memory : List UInt8)

def digitsAt (position : Nat) : List UInt8 :=
  (memory.drop position).takeWhile isDigit

/-- The bytes at a position open a byte string. -/
def TextOpens (position : Nat) : Prop :=
  digitsAt memory position ≠ [] ∧
    memory[position + (digitsAt memory position).length]? = some (ch ':')

instance (position : Nat) : Decidable (TextOpens memory position) :=
  inferInstanceAs (Decidable (_ ∧ _))

/-- A length with its colon at `position`, for `count` bytes at `body`. -/
structure LengthAt (position body count : Nat) : Prop where
  digits : digitsAt memory position ≠ []
  colon :
    memory[position + (digitsAt memory position).length]? = some (ch ':')
  value : digitsInt32 (digitsAt memory position) = count
  body : body = position + (digitsAt memory position).length + 1

/-- Where the walk of a dictionary stops. -/
def DictEnds (last : Int) (position : Nat) : Prop :=
  memory[position]? = some (ch 'e') ∨
    memory[position]? = some 0 ∨
    memory[position]? = some (ch '\r') ∨
    (memory[position]? = some (ch 'd') ∧
      memory[position + 1]? = some (ch 'e')) ∨
    last ≤ position + 1

instance (last : Int) (position : Nat) :
    Decidable (DictEnds memory last position) :=
  inferInstanceAs (Decidable (_ ∨ _))

/-- The position behind a dictionary whose walk stopped at `position`. -/
def afterDict (position : Nat) : Nat :=
  if memory[position]? = some (ch 'd') ∧
      memory[position + 1]? = some (ch 'e') then
    position + 2
  else
    position + 1

/-- The place of a key: a `d` at the cursor is passed over. -/
def keyPosition (position : Nat) : Nat :=
  if memory[position]? = some (ch 'd') then position + 1 else position

/-- A key at `position` and its value at `value`, inside the block. -/
structure KeyAt (position value : Nat) : Prop where
  inside : value < memory.length
  key :
    ∃ body count,
      LengthAt memory (keyPosition memory position) body count ∧
        value = body + count

/-- The digits of an integer whose `i` is at `position`. -/
def intDigits (position : Nat) : Nat :=
  if memory[position + 1]? = some (ch '-') then position + 2
  else position + 1

/-- The place of a list element; the `l` of the list itself is passed
over. -/
def itemPosition (start position : Nat) : Nat :=
  if memory[position]? = some (ch 'l') ∧ position = start then position + 1
  else position

def Unknown (position : Nat) : Prop :=
  position < memory.length ∧
    memory[position]? ≠ some (ch 'd') ∧
    memory[position]? ≠ some (ch 'l') ∧
    memory[position]? ≠ some (ch 'i') ∧
    ¬ TextOpens memory position

end Grammar

inductive Task where
  | value (last : Int) (position : Nat)
  | entries (start : Nat) (last : Int) (position : Nat)
  | items (start : Nat) (last : Int) (position : Nat)

inductive Reads (memory : List UInt8) : Task → Option Nat → Prop
  | dict {last : Int} {position : Nat} {result : Option Nat}
      (opens : memory[position]? = some (ch 'd'))
      (entries : Reads memory (.entries position last position) result) :
      Reads memory (.value last position) result
  | list {last : Int} {position : Nat} {result : Option Nat}
      (opens : memory[position]? = some (ch 'l'))
      (items : Reads memory (.items position last position) result) :
      Reads memory (.value last position) result
  | text {last : Int} {position body count : Nat}
      (length : LengthAt memory position body count)
      (room : position < last) :
      Reads memory (.value last position)
        (if (body + count : Int) ≤ last then some (body + count) else none)
  | integer {last : Int} {position : Nat}
      (opens : memory[position]? = some (ch 'i'))
      (digits : digitsAt memory (intDigits memory position) ≠ [])
      (closes :
        memory[intDigits memory position +
          (digitsAt memory (intDigits memory position)).length]? =
            some (ch 'e')) :
      Reads memory (.value last position)
        (some (intDigits memory position +
          (digitsAt memory (intDigits memory position)).length + 1))
  | bareInteger {last : Int} {position : Nat}
      (opens : memory[position]? = some (ch 'i'))
      (digits : digitsAt memory (intDigits memory position) = []) :
      Reads memory (.value last position) none
  | unknown {last : Int} {position : Nat}
      (unknown : Unknown memory position) :
      Reads memory (.value last position) none
  | dictEnd {start : Nat} {last : Int} {position : Nat}
      (inside : position < memory.length)
      (ends : DictEnds memory last position) :
      Reads memory (.entries start last position)
        (some (afterDict memory position))
  | entry {start : Nat} {last : Int} {position value next : Nat}
      {result : Option Nat}
      (more : ¬ DictEnds memory last position)
      (key : KeyAt memory position value)
      (read :
        Reads memory (.value (last + (position - start)) value) (some next))
      (rest : Reads memory (.entries start last next) result) :
      Reads memory (.entries start last position) result
  | entryFails {start : Nat} {last : Int} {position value : Nat}
      (more : ¬ DictEnds memory last position)
      (key : KeyAt memory position value)
      (failed :
        Reads memory (.value (last + (position - start)) value) none) :
      Reads memory (.entries start last position) none
  | emptyList {start : Nat} {last : Int}
      (opens : memory[start]? = some (ch 'l'))
      (closes : memory[start + 1]? = some (ch 'e')) :
      Reads memory (.items start last start) (some (start + 2))
  | listEnd {start : Nat} {last : Int} {position : Nat}
      (closes : memory[position]? = some (ch 'e')) :
      Reads memory (.items start last position) (some (position + 1))
  | item {start : Nat} {last : Int} {position next : Nat}
      {result : Option Nat}
      (more : memory[position]? ≠ some (ch 'e'))
      (element :
        memory[itemPosition memory start position]? ≠ some (ch 'e'))
      (room : start < last)
      (read :
        Reads memory (.value (last + (position - start))
          (itemPosition memory start position)) (some next))
      (rest : Reads memory (.items start last next) result) :
      Reads memory (.items start last position) result
  | itemFails {start : Nat} {last : Int} {position : Nat}
      (more : memory[position]? ≠ some (ch 'e'))
      (element :
        memory[itemPosition memory start position]? ≠ some (ch 'e'))
      (room : start < last)
      (failed :
        Reads memory (.value (last + (position - start))
          (itemPosition memory start position)) none) :
      Reads memory (.items start last position) none

section Facts

variable {memory : List UInt8}

def Task.position : Task → Nat
  | .value _ position => position
  | .entries _ _ position => position
  | .items _ _ position => position

theorem lt_length_of_byte {position : Nat} {byte : UInt8}
    (held : memory[position]? = some byte) :
    position < memory.length :=
  (List.getElem?_eq_some_iff.mp held).1

theorem digitsAt_eq_nil_of_le {position : Nat}
    (outside : memory.length ≤ position) :
    digitsAt memory position = [] := by
  simp [digitsAt, List.drop_eq_nil_of_le outside]

theorem LengthAt.position_lt_body {position body count : Nat}
    (length : LengthAt memory position body count) :
    position + 1 < body := by
  have nonempty := List.length_pos_iff.mpr length.digits
  have place := length.body
  omega

theorem LengthAt.body_le {position body count : Nat}
    (length : LengthAt memory position body count) :
    body ≤ memory.length := by
  have inside := lt_length_of_byte length.colon
  have place := length.body
  omega

theorem le_keyPosition (memory : List UInt8) (position : Nat) :
    position ≤ keyPosition memory position := by
  unfold keyPosition
  split <;> omega

theorem le_itemPosition (memory : List UInt8) (start position : Nat) :
    position ≤ itemPosition memory start position := by
  unfold itemPosition
  split <;> omega

theorem lt_intDigits (memory : List UInt8) (position : Nat) :
    position < intDigits memory position := by
  unfold intDigits
  split <;> omega

theorem KeyAt.position_lt {position value : Nat}
    (key : KeyAt memory position value) :
    position + 1 < value := by
  obtain ⟨body, count, length, place⟩ := key.key
  have first := le_keyPosition memory position
  have second := length.position_lt_body
  omega

theorem Reads.inside {task : Task} {result : Option Nat}
    (reads : Reads memory task result) :
    task.position < memory.length := by
  induction reads with
  | dict opens _ _ => exact lt_length_of_byte opens
  | list opens _ _ => exact lt_length_of_byte opens
  | text length _ =>
      have first := length.position_lt_body
      have second := length.body_le
      simp only [Task.position]
      omega
  | integer opens _ _ => exact lt_length_of_byte opens
  | bareInteger opens _ => exact lt_length_of_byte opens
  | unknown unknown => exact unknown.1
  | dictEnd inside _ => exact inside
  | entry _ key _ _ _ _ =>
      have first := key.position_lt
      have second := key.inside
      simp only [Task.position]
      omega
  | entryFails _ key _ _ =>
      have first := key.position_lt
      have second := key.inside
      simp only [Task.position]
      omega
  | emptyList opens _ => exact lt_length_of_byte opens
  | listEnd closes => exact lt_length_of_byte closes
  | item _ _ _ _ _ inductionHypothesis _ =>
      exact Nat.lt_of_le_of_lt (le_itemPosition _ _ _) inductionHypothesis
  | itemFails _ _ _ _ inductionHypothesis =>
      exact Nat.lt_of_le_of_lt (le_itemPosition _ _ _) inductionHypothesis

theorem Reads.forward {task : Task} {result : Option Nat}
    (reads : Reads memory task result) :
    ∀ next ∈ result, task.position < next := by
  induction reads with
  | dict _ _ inductionHypothesis => exact inductionHypothesis
  | list _ _ inductionHypothesis => exact inductionHypothesis
  | text length _ =>
      intro next member
      have first := length.position_lt_body
      split at member
      · cases member
        simp only [Task.position]
        omega
      · cases member
  | @integer _ position _ _ _ =>
      intro next member
      cases member
      have first := lt_intDigits memory position
      simp only [Task.position]
      omega
  | bareInteger _ _ =>
      intro next member
      cases member
  | unknown _ =>
      intro next member
      cases member
  | @dictEnd _ _ position _ _ =>
      intro next member
      cases member
      change position < afterDict memory position
      unfold afterDict
      split <;> omega
  | entry _ key _ _ valueForward restForward =>
      intro next member
      have first := key.position_lt
      have second := valueForward _ rfl
      have third := restForward next member
      simp only [Task.position] at *
      omega
  | entryFails _ _ _ _ =>
      intro next member
      cases member
  | emptyList _ _ =>
      intro next member
      cases member
      simp only [Task.position]
      omega
  | listEnd _ =>
      intro next member
      cases member
      simp only [Task.position]
      omega
  | @item start _ position _ _ _ _ _ _ _ valueForward restForward =>
      intro next member
      have first := le_itemPosition memory start position
      have second := valueForward _ rfl
      have third := restForward next member
      simp only [Task.position] at *
      omega
  | itemFails _ _ _ _ _ =>
      intro next member
      cases member

end Facts

end UvgTorrent
